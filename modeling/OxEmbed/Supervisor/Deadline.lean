import Mathlib.Algebra.Order.Monoid.Unbundled.Basic
import OxEmbed.Library.Pacing
import OxEmbed.Supervisor.Launch
import OxEmbed.Supervisor.Wedge

/-!
# How soon a wedged worker is killed

The heartbeat sleeps for its interval before each tick, and gives up a probe after its timeout.
When each task goes on within some latency, a tick takes at most the interval, the timeout and the
latency of its four steps. So the time until a wedged worker is killed is bounded; the bound starts
when the last success has aged past the freshness window. The other way round, a worker is never
killed too often: between two kills lie as many intervals as fails are allowed.

## Main definitions

* `Timing`, `pacing`, `paced` : how long the stages of the heartbeat last.
* `agedFrom`, `tickTime`, `killDeadline` : the bound on the time until the kill.

## Main results

* `kill_by_deadline` : a wedged worker is killed by the deadline, whatever the environment holds.
* `kills_apart` : how many kills there are in a stretch of time.
-/

namespace OxEmbed.Supervisor

/-! ### The timed supervisor -/

/-- How long the steps of the heartbeat take, in milliseconds. -/
structure Timing where
  probeTimeout : ℕ
  /-- A step that is due happens within this time. -/
  latency : ℕ

/-- The interval, in milliseconds. -/
def Config.intervalMillis (cfg : Config) : ℕ := cfg.heartbeatInterval * 1000

/-- How long a stage of the heartbeat lasts: the sleep of `heartbeat_loop`, the timeout of the
probe, and the steps of `heartbeat_tick` that wait for nothing. -/
def stay (cfg : Config) (timing : Timing) : HeartbeatPhase → Option ℕ
  | .off => none
  | .sleeping => some (cfg.intervalMillis + timing.latency)
  | .probing _ => some (timing.probeTimeout + timing.latency)
  | .judging _ | .judged .. | .loadPid _ | .killing .. => some timing.latency

/-- The pacing of the heartbeat; all other steps happen at any time. -/
def pacing (cfg : Config) (timing : Timing) : Pacing State Action where
  clock := State.clock
  starts s
    | .heartbeat | .probed _ => true
    | _ => decide (s.heartbeat = .off)
  earliest s
    | .heartbeat => if s.heartbeat = .sleeping then cfg.intervalMillis else 0
    | .probed .timeout => timing.probeTimeout
    | _ => 0
  latest s := stay cfg timing s.heartbeat

/-- The supervisor, as a timed machine. -/
def paced (cfg : Config) (timing : Timing) : Machine (Paced State) Action :=
  (pacing cfg timing).machine (machine cfg)

/-- The timing of a supervisor that was launched. -/
def launchTiming (env : Startup.Env) (latency : ℕ) : Timing :=
  ⟨heartbeatProbeTimeout env, latency⟩

variable {cfg : Config} {timing : Timing} {s s' : State} {t t' : Paced State} {a : Action}
  {as : List Action} {D : Paced State → Action → Prop} {start : ℕ}

/-- What a step of the timed supervisor can do. -/
theorem trans_of_paced (h : (paced cfg timing).step t a = some t') :
    Trans cfg t.state a t'.state ∧
      t.since + (pacing cfg timing).earliest t.state a ≤ t.state.clock ∧
      t'.since = if (pacing cfg timing).starts t.state a then t'.state.clock else t.since := by
  obtain ⟨hready, s, hs, rfl, -⟩ := Pacing.step_eq_some_iff.1 h
  exact ⟨trans_of_step hs, hready, rfl⟩

/-- The clock never goes back. -/
theorem clock_le_of_trans (h : Trans cfg s a s') : s.clock ≤ s'.clock := by
  cases h with
  | wait d => exact Nat.le_add_right _ d
  | _ => exact Nat.le_refl _

theorem kills_le_of_trans (h : Trans cfg s a s') : s.kills.length ≤ s'.kills.length := by
  cases h with
  | kill =>
    rw [State.endTick, State.resetFails, State.kill, List.length_append]
    exact Nat.le_add_right _ _
  | _ => exact Nat.le_refl _

theorem since_le_clock (ht : (paced cfg timing).Reachable D t) : t.since ≤ t.state.clock :=
  Pacing.since_le_of_reachable (fun _ _ _ h => clock_le_of_trans (trans_of_step h)) ht

/-- The state of a timed supervisor is one that the supervisor reaches. -/
theorem reachable_of_paced (ht : (paced cfg timing).Reachable D t) :
    (machine cfg).Reachable (fun _ _ => True) t.state :=
  Pacing.reachable (ht.strengthen fun _ _ _ _ _ _ => trivial)

/-! ### The deadline -/

/-- The time from which no tick that reads the clock is suppressed, until the next success. -/
def agedFrom (cfg : Config) (s : State) : ℕ :=
  if s.lastSuccess = 0 then s.clock
  else max s.clock (s.lastSuccess + cfg.heartbeatFreshnessWindow)

/-- The time that a tick takes: a sleep, a probe, and the latency of four steps. -/
def tickTime (cfg : Config) (timing : Timing) : ℕ :=
  cfg.intervalMillis + timing.probeTimeout + 4 * timing.latency

/-- The time by which a worker that is wedged from the state on is killed. -/
def killDeadline (cfg : Config) (timing : Timing) (s : State) : ℕ :=
  agedFrom cfg s + tickTime cfg timing * cfg.heartbeatMaxFails + 3 * timing.latency

/-- The time from the start of a stage until the tick has read the clock. -/
def untilRead (cfg : Config) (timing : Timing) : HeartbeatPhase → ℕ
  | .sleeping => cfg.intervalMillis + timing.probeTimeout + 3 * timing.latency
  | .probing _ => timing.probeTimeout + 2 * timing.latency
  | .judging _ => timing.latency
  | .off | .judged .. | .loadPid _ | .killing .. => 0

/-- The steps from the last read of the clock to the start of a stage. -/
def sinceRead : HeartbeatPhase → ℕ
  | .loadPid _ => 1
  | .killing .. => 2
  | .off | .sleeping | .probing _ | .judging _ | .judged .. => 0

/-- What holds of a wedged worker until it is killed, from the time on at which its last success
has aged: each tick that reads the clock later is counted. -/
structure Approaching (cfg : Config) (timing : Timing) (aged : ℕ) (s : State) (since : ℕ) :
    Prop where
  stale : ∀ now, aged ≤ now →
    ¬ (0 < s.lastSuccess ∧ now - s.lastSuccess < cfg.heartbeatFreshnessWindow)
  on : s.heartbeat ≠ .off
  unspent : s.heartbeat.Spent = false →
    since + untilRead cfg timing s.heartbeat ≤
      aged + tickTime cfg timing * s.consecutiveFails + tickTime cfg timing
  spent : s.heartbeat.Spent = true →
    since ≤ aged + tickTime cfg timing * s.consecutiveFails +
      sinceRead s.heartbeat * timing.latency
  read : ∀ p now, s.heartbeat = .judged p now → since = now

variable {aged since since' : ℕ}

/-- A step that keeps the phase of the heartbeat and the counter. -/
theorem Approaching.frame (h : Approaching cfg timing aged s since)
    (hheartbeat : s'.heartbeat = s.heartbeat) (hlast : s'.lastSuccess = s.lastSuccess)
    (hfails : s'.consecutiveFails = s.consecutiveFails) :
    Approaching cfg timing aged s' since := by
  refine ⟨?_, ?_, ?_, ?_, ?_⟩
  · rw [hlast]
    exact h.stale
  · rw [hheartbeat]
    exact h.on
  · rw [hheartbeat, hfails]
    exact h.unspent
  · rw [hheartbeat, hfails]
    exact h.spent
  · rw [hheartbeat]
    exact h.read

/-- A step of the heartbeat to a phase in which the clock is not read yet. -/
theorem Approaching.unread (h : Approaching cfg timing aged s since)
    (hlast : s'.lastSuccess = s.lastSuccess) (hon : s'.heartbeat ≠ .off)
    (hspent : s'.heartbeat.Spent = false) (hread : ∀ p now, s'.heartbeat ≠ .judged p now)
    (hsince : since' + untilRead cfg timing s'.heartbeat ≤
      aged + tickTime cfg timing * s'.consecutiveFails + tickTime cfg timing) :
    Approaching cfg timing aged s' since' := by
  refine ⟨?_, hon, fun _ => hsince, fun h => ?_, fun p now h => absurd h (hread p now)⟩
  · rw [hlast]
    exact h.stale
  · rw [hspent] at h
    cases h

/-- A step of the heartbeat to a phase in which the counter is spent. -/
theorem Approaching.signalling (h : Approaching cfg timing aged s since)
    (hlast : s'.lastSuccess = s.lastSuccess) (hspent : s'.heartbeat.Spent = true)
    (hsince : since' ≤ aged + tickTime cfg timing * s'.consecutiveFails +
      sinceRead s'.heartbeat * timing.latency) :
    Approaching cfg timing aged s' since' := by
  refine ⟨?_, fun hoff => ?_, fun hunspent => ?_, fun _ => hsince, fun p now hread => ?_⟩
  · rw [hlast]
    exact h.stale
  · rw [hoff] at hspent
    cases hspent
  · rw [hspent] at hunspent
    cases hunspent
  · rw [hread] at hspent
    cases hspent

/-- **Step lemma.** A step of a wedged worker kills it or keeps the bound. -/
theorem Approaching.step (hb : Bookkeeping s) (h : Approaching cfg timing aged s since)
    (hin : ∀ d ∈ stay cfg timing s.heartbeat, s.clock ≤ since + d) (hC : Wedged s a)
    (hstep : Trans cfg s a s')
    (hsince : since' = if (pacing cfg timing).starts s a then s'.clock else since) :
    s.kills.length < s'.kills.length ∨ Approaching cfg timing aged s' since' := by
  obtain ⟨hslot, hpid, hok, hstamp⟩ := hC
  have hunspent {phase : HeartbeatPhase} (hh : s.heartbeat = phase)
      (hphase : phase.Spent = false) : since + untilRead cfg timing phase ≤
        aged + tickTime cfg timing * s.consecutiveFails + tickTime cfg timing := by
    subst hh
    exact h.unspent hphase
  have hlate {phase : HeartbeatPhase} (hh : s.heartbeat = phase) :
      ∀ d ∈ stay cfg timing phase, s.clock ≤ since + d := by
    subst hh
    exact hin
  cases hstep with
  | stamp => exact absurd rfl (hstamp _)
  | skip _ hnone => exact absurd hnone hslot
  | probeOk => exact absurd rfl hok
  | noPid _ hzero => exact absurd hzero hpid
  | kill =>
    left
    rw [State.endTick, State.resetFails, State.kill, List.length_append]
    exact Nat.lt_succ_self _
  | probe hh | probeFailed _ hh =>
    have hdue := hlate hh _ rfl
    have hbound := hunspent hh rfl
    have hnow : since' = s.clock := hsince
    refine .inr (h.unread rfl (by simp) rfl (by simp) ?_)
    simp only [untilRead] at hbound ⊢
    omega
  | judge hh =>
    have hdue := hlate hh _ rfl
    have hbound := hunspent hh rfl
    have hnow : since' = s.clock := hsince
    refine .inr ⟨h.stale, by simp, fun _ => ?_, fun hspent => ?_, fun p now hread => ?_⟩
    · simp only [untilRead] at hbound ⊢
      omega
    · cases hspent
    · rw [hnow]
      exact (HeartbeatPhase.judged.inj hread).2
  | suppress hh hlast hfresh =>
    -- the clock was read before the success had aged
    have hdue := hlate hh _ rfl
    have hread := h.read _ _ hh
    have hbefore : since < aged := by
      refine Nat.lt_of_not_le fun hle => h.stale since hle ⟨hlast, ?_⟩
      rwa [hread]
    have hnow : since' = s.clock := hsince
    refine .inr (h.unread rfl (by simp [State.endTick]) rfl (by simp [State.endTick]) ?_)
    simp only [untilRead, State.endTick, tickTime]
    omega
  | count hh =>
    have hdue := hlate hh _ rfl
    have hbound := hunspent hh rfl
    have hnow : since' = s.clock := hsince
    refine .inr (h.unread rfl (by simp [State.endTick]) rfl (by simp [State.endTick]) ?_)
    simp only [untilRead, State.endTick, State.countFail, Nat.mul_succ] at hbound ⊢
    simp only [tickTime] at hbound ⊢
    omega
  | spend hh =>
    have hdue := hlate hh _ rfl
    have hbound := hunspent hh rfl
    have hnow : since' = s.clock := hsince
    refine .inr (h.signalling rfl rfl ?_)
    simp only [untilRead, State.countFail, Nat.mul_succ, sinceRead] at hbound ⊢
    omega
  | loadPid hh =>
    have hdue := hlate hh _ rfl
    have hbound := h.spent (hh ▸ rfl)
    have hnow : since' = s.clock := hsince
    refine .inr (h.signalling rfl rfl ?_)
    rw [hh] at hbound
    simp only [sinceRead] at hbound ⊢
    omega
  | connect hh =>
    have hbound := hunspent hh rfl
    have hnow : since' = since := hsince.trans (if_neg (by simpa [pacing] using h.on))
    subst hnow
    exact .inr (h.unread rfl (by simp) rfl (by simp) hbound)
  | launchPid hw => exact absurd (hb.launching (hw ▸ rfl)) h.on
  | _ =>
    have hnow : since' = since := hsince.trans (if_neg (by simpa [pacing] using h.on))
    subst hnow
    exact .inr (h.frame rfl rfl rfl)

/-- Until the worker is killed the deadline has not passed. -/
theorem Approaching.clock_le (h : Approaching cfg timing aged s since)
    (hin : ∀ d ∈ stay cfg timing s.heartbeat, s.clock ≤ since + d) (hcounter : Counter cfg s) :
    s.clock ≤ aged + tickTime cfg timing * cfg.heartbeatMaxFails + 3 * timing.latency := by
  cases hspent : s.heartbeat.Spent with
  | false =>
    have hbelow : s.consecutiveFails + 1 ≤ cfg.heartbeatMaxFails := by
      have hfails := hcounter.fails
      rw [hspent] at hfails
      exact hfails ▸ hcounter.below
    have htime : tickTime cfg timing * s.consecutiveFails + tickTime cfg timing ≤
        tickTime cfg timing * cfg.heartbeatMaxFails := by
      rw [← Nat.mul_succ]
      exact Nat.mul_le_mul_left _ hbelow
    have hbound := h.unspent hspent
    cases hh : s.heartbeat with
    | off => exact absurd hh h.on
    | sleeping | probing | judging | judged =>
      rw [hh] at hin hbound
      have hdue := hin _ rfl
      simp only [untilRead] at hbound
      omega
    | loadPid | killing =>
      rw [hh] at hspent
      cases hspent
  | true =>
    have hbound := h.spent hspent
    rw [hcounter.spent hspent] at hbound
    cases hh : s.heartbeat with
    | loadPid | killing =>
      rw [hh] at hin hbound
      have hdue := hin _ rfl
      simp only [sinceRead] at hbound
      omega
    | off | sleeping | probing | judging | judged =>
      rw [hh] at hspent
      cases hspent

/-- The stage that follows a read of the clock starts with it. -/
def ReadAtStart (t : Paced State) : Prop :=
  ∀ p now, t.state.heartbeat = .judged p now → t.since = now

theorem readAtStart_of_reachable (ht : (paced cfg timing).Reachable D t) : ReadAtStart t := by
  refine ht.invariant ?_ fun t a t' ih _ hstep => ?_
  · rintro ⟨_, since⟩ ⟨⟨pid, clock, -, rfl⟩, -⟩ p now hh
    cases hh
  · obtain ⟨s, since⟩ := t
    obtain ⟨s', since'⟩ := t'
    obtain ⟨htrans, -, hsince⟩ := trans_of_paced hstep
    dsimp only at htrans hsince
    intro p now hh
    cases htrans with
    | judge =>
      rw [← (HeartbeatPhase.judged.inj hh).2]
      exact hsince
    | launchPid =>
      dsimp only at hh
      split at hh <;> cases hh
    | skip | probe | connect | probeOk | probeFailed | suppress | count | spend | noPid
    | loadPid | kill => cases hh
    | _ =>
      have hon : s.heartbeat ≠ .off := by
        intro hoff
        cases hoff.symm.trans hh
      rw [← ih p now hh]
      exact hsince.trans (if_neg (by simpa [pacing] using hon))

theorem clock_le_agedFrom : s.clock ≤ agedFrom cfg s := by
  rw [agedFrom]
  split
  · exact Nat.le_refl _
  · exact Nat.le_max_left ..

/-- The state from which the deadline counts. -/
theorem approaching_start (ht : (paced cfg timing).Reachable D t)
    (hon : t.state.heartbeat ≠ .off) :
    Approaching cfg timing (agedFrom cfg t.state) t.state t.since := by
  have hstart := since_le_clock ht
  have hin := Pacing.inTime_of_reachable ht
  have hclock : t.state.clock ≤ agedFrom cfg t.state := clock_le_agedFrom
  refine ⟨fun now hnow => ?_, hon, fun _ => ?_, fun _ => ?_, fun p now hh => ?_⟩
  · rintro ⟨hlast, hfresh⟩
    rw [agedFrom, if_neg hlast.ne'] at hnow
    omega
  · have hread : untilRead cfg timing t.state.heartbeat ≤ tickTime cfg timing := by
      cases t.state.heartbeat <;> simp only [untilRead, tickTime] <;> omega
    omega
  · omega
  · exact readAtStart_of_reachable ht p now hh

/-- **A wedged worker is killed by the deadline**: some time after its last success has aged, of as
many ticks as fails are allowed, and of the latency of the kill. -/
theorem kill_of_deadline (ht : (paced cfg timing).Reachable (fun _ _ => True) t)
    (hon : t.state.heartbeat ≠ .off)
    (hp : (paced cfg timing).Path (fun t a => Wedged t.state a) t as t')
    (hlate : killDeadline cfg timing t.state < t'.state.clock) :
    t.state.kills.length < t'.state.kills.length := by
  have ht' : (paced cfg timing).Reachable (fun _ _ => True) t' :=
    ht.path (hp.of_forall_mem fun _ _ _ => trivial)
  have hdone : t.state.kills.length < t'.state.kills.length ∨
      (t'.state.kills.length = t.state.kills.length ∧
        Approaching cfg timing (agedFrom cfg t.state) t'.state t'.since) := by
    clear hlate ht'
    induction hp with
    | nil => exact .inr ⟨rfl, approaching_start ht hon⟩
    | @snoc t₁ t₂ a as hp hC h ih =>
      have ht₁ : (paced cfg timing).Reachable (fun _ _ => True) t₁ :=
        ht.path (hp.of_forall_mem fun _ _ _ => trivial)
      obtain ⟨htrans, -, hsince⟩ := trans_of_paced h
      have hmono := kills_le_of_trans htrans
      rcases ih with hkill | ⟨hnone, happroach⟩
      · exact .inl (hkill.trans_le hmono)
      · have hb := bookkeeping_of_reachable (reachable_of_paced ht₁)
        rcases happroach.step hb (Pacing.inTime_of_reachable ht₁) hC htrans hsince with
          hkill | happroach'
        · exact .inl (hnone ▸ hkill)
        · rcases Nat.lt_or_eq_of_le hmono with hkill | hnone'
          · exact .inl (hnone ▸ hkill)
          · exact .inr ⟨hnone'.symm.trans hnone, happroach'⟩
  refine hdone.resolve_right fun ⟨_, happroach⟩ => Nat.not_le_of_lt hlate ?_
  exact happroach.clock_le (Pacing.inTime_of_reachable ht')
    (counter_of_reachable (reachable_of_paced ht'))

/-! ### Time passes -/

/-- Time passes while the stage is not due. -/
theorem wait_of_lt (hstart : t.since ≤ t.state.clock)
    (h : ∀ d ∈ stay cfg timing t.state.heartbeat, t.state.clock < t.since + d) :
    ((paced cfg timing).step t (.wait 1)).isSome = true := by
  refine Option.isSome_iff_exists.2
    ⟨_, Pacing.step_eq_some_iff.2 ⟨hstart, _, rfl, rfl, fun d hd => ?_⟩⟩
  have hlt := h d hd
  rw [Pacing.next]
  dsimp only
  split
  · exact Nat.le_add_right _ d
  · exact hlt

/-- A step of the tick is performed when the stage is due. -/
theorem tick_of_due {d : ℕ} (hd : d ∈ stay cfg timing t.state.heartbeat)
    (hdue : t.since + d ≤ t.state.clock) (ha : a = .heartbeat ∨ a = .probed .timeout)
    (hstep : (step cfg t.state a).isSome = true) :
    ((paced cfg timing).step t a).isSome = true := by
  have hready : (pacing cfg timing).earliest t.state a ≤ d := by
    rcases ha with rfl | rfl
    · show (if t.state.heartbeat = .sleeping then cfg.intervalMillis else 0) ≤ d
      split
      next hh =>
        rw [hh] at hd
        cases hd
        exact Nat.le_add_right ..
      · exact Nat.zero_le d
    · cases hh : t.state.heartbeat with
      | probing =>
        rw [hh] at hd
        cases hd
        exact Nat.le_add_right ..
      | off | sleeping | judging | judged | loadPid | killing => simp [step, hh] at hstep
  have hstarts : (pacing cfg timing).starts t.state a = true := by
    rcases ha with rfl | rfl <;> rfl
  obtain ⟨s', hs'⟩ := Option.isSome_iff_exists.1 hstep
  refine Option.isSome_iff_exists.2 ⟨_, Pacing.step_eq_some_iff.2
    ⟨(Nat.add_le_add_left hready _).trans hdue, s', hs', rfl, fun d _ => ?_⟩⟩
  rw [Pacing.next, if_pos hstarts]
  exact Nat.le_add_right _ d

/-- **Time passes, or the tick goes on.** -/
theorem time_proceeds (ht : (paced cfg timing).Reachable D t) :
    ((paced cfg timing).step t (.wait 1)).isSome = true ∨
      ((paced cfg timing).step t .heartbeat).isSome = true ∨
      ((paced cfg timing).step t (.probed .timeout)).isSome = true := by
  by_cases hlt : ∀ d ∈ stay cfg timing t.state.heartbeat, t.state.clock < t.since + d
  · exact .inl (wait_of_lt (since_le_clock ht) hlt)
  · push Not at hlt
    obtain ⟨d, hd, hdue⟩ := hlt
    have hon : t.state.heartbeat ≠ .off := by
      intro hoff
      rw [hoff] at hd
      cases hd
    have hgoes : (step cfg t.state .heartbeat).isSome = true ∨
        (step cfg t.state (.probed .timeout)).isSome = true := heartbeat_proceeds hon
    rcases hgoes with hstep | hstep
    · exact .inr (.inl (tick_of_due hd hdue (.inl rfl) hstep))
    · exact .inr (.inr (tick_of_due hd hdue (.inr rfl) hstep))

/-- A wedged worker is killed in time, and time passes. -/
structure KillsInTime (cfg : Config) (timing : Timing) : Prop where
  /-- Time passes, or the tick goes on. -/
  proceeds : ∀ t, (paced cfg timing).Reachable (fun _ _ => True) t →
    ((paced cfg timing).step t (.wait 1)).isSome = true ∨
      ((paced cfg timing).step t .heartbeat).isSome = true ∨
      ((paced cfg timing).step t (.probed .timeout)).isSome = true
  /-- A worker that is wedged from a state after the launch on is killed by the deadline. -/
  kill : ∀ t as t', (paced cfg timing).Reachable (fun _ _ => True) t →
    t.state.watchdog.Launching = false →
    (paced cfg timing).Path (fun t a => Wedged t.state a) t as t' →
    killDeadline cfg timing t.state < t'.state.clock →
    t.state.kills.length < t'.state.kills.length

/-- **A wedged worker is killed in time**, whatever the environment of the launch holds. -/
theorem killsInTime (env : Startup.Env) (latency : ℕ) :
    KillsInTime (launchConfig env) (launchTiming env latency) := by
  refine ⟨fun _ => time_proceeds, fun t as t' ht hlaunched hp hlate => ?_⟩
  have hon := heartbeat_ne_off_of_reachable (reachable_of_paced ht) hlaunched
  exact kill_of_deadline ht hon hp hlate

/-- With the defaults, 225 s after a success that was the last. -/
example (hlast : s.lastSuccess ≠ 0) (hnow : s.lastSuccess = s.clock) :
    killDeadline defaultConfig ⟨15000, 0⟩ s = s.lastSuccess + 225000 := by
  have haged : agedFrom defaultConfig s = s.clock + 90000 := by
    rw [agedFrom, if_neg hlast, hnow]
    exact Nat.max_eq_right (Nat.le_add_right _ _)
  have htick : tickTime defaultConfig ⟨15000, 0⟩ = 45000 := rfl
  rw [killDeadline, haged, htick]
  show s.clock + 90000 + 45000 * 3 + 3 * 0 = s.lastSuccess + 225000
  omega

/-! ### The kills are apart -/

/-- The part of the sleep of a tick that a stage comes after. -/
def slept (cfg : Config) : HeartbeatPhase → ℕ
  | .probing _ | .judging _ | .judged .. => cfg.intervalMillis
  | .off | .sleeping | .loadPid _ | .killing .. => 0

/-- What holds from a time on: every fail that was counted since the first kill took an interval,
and so did every fail of the kills after it. -/
structure Spaced (cfg : Config) (first start : ℕ) (s : State) (since : ℕ) : Prop where
  clock : start ≤ s.clock
  kills : first ≤ s.kills.length + 1
  spaced : first ≤ s.kills.length →
    (s.kills.length - first) * (cfg.heartbeatMaxFails * cfg.intervalMillis) +
      s.consecutiveFails * cfg.intervalMillis + start + slept cfg s.heartbeat ≤ since

variable {first : ℕ}

/-- A step that sends no signal. -/
theorem Spaced.frame (h : Spaced cfg first start s since) (hclock : s.clock ≤ s'.clock)
    (hkills : s'.kills.length = s.kills.length)
    (hcount : s'.consecutiveFails * cfg.intervalMillis + slept cfg s'.heartbeat + since ≤
      s.consecutiveFails * cfg.intervalMillis + slept cfg s.heartbeat + since') :
    Spaced cfg first start s' since' := by
  refine ⟨h.clock.trans hclock, hkills ▸ h.kills, fun hfirst => ?_⟩
  rw [hkills] at hfirst ⊢
  have hspaced := h.spaced hfirst
  omega

/-- **Step lemma.** Every step keeps the kills apart. -/
theorem Spaced.step (hcounter : Counter cfg s) (h : Spaced cfg first start s since)
    (hstart : since ≤ s.clock) (hstep : Trans cfg s a s')
    (hready : since + (pacing cfg timing).earliest s a ≤ s.clock)
    (hsince : since' = if (pacing cfg timing).starts s a then s'.clock else since) :
    Spaced cfg first start s' since' := by
  have hclock := clock_le_of_trans hstep
  have hle : since ≤ since' := by
    rw [hsince]
    split
    · exact hstart.trans hclock
    · exact Nat.le_refl _
  cases hstep with
  | probe hh =>
    have hslept : since + cfg.intervalMillis ≤ s.clock := by
      simpa only [pacing, hh, if_true] using hready
    have hnow : since' = s.clock := hsince
    refine h.frame hclock rfl ?_
    rw [hh]
    simp only [slept]
    omega
  | count hh | spend hh =>
    refine h.frame hclock rfl ?_
    rw [hh]
    simp only [slept, State.countFail, State.endTick, Nat.succ_mul]
    omega
  | skip | probeOk | noPid =>
    refine h.frame hclock rfl ?_
    simp only [slept, State.resetFails, State.endTick, Nat.zero_mul]
    omega
  | probeFailed _ hh | judge hh | suppress hh | loadPid hh | connect hh =>
    refine h.frame hclock rfl ?_
    rw [hh]
    simp only [slept, State.endTick]
    omega
  | @kill p pid hh =>
    -- the fails that are used up took as many intervals
    have hfails := hcounter.spent (hh ▸ rfl)
    have hkills : (s.kill pid).kills.length = s.kills.length + 1 := by
      rw [State.kill, List.length_append, List.length_singleton]
    refine ⟨h.clock.trans hclock, ?_, fun hfirst => ?_⟩
    · show first ≤ (s.kill pid).kills.length + 1
      rw [hkills]
      exact h.kills.trans (Nat.le_succ _)
    · show ((s.kill pid).kills.length - first) * _ + 0 * _ + start + 0 ≤ since'
      have hnow : since' = s.clock := hsince
      rw [hkills, Nat.zero_mul]
      rcases Nat.lt_or_ge s.kills.length first with hnone | hsome
      · rw [Nat.sub_eq_zero_of_le hnone, Nat.zero_mul]
        have hbefore := h.clock
        omega
      · have hspaced := h.spaced hsome
        rw [hfails] at hspaced
        rw [Nat.succ_sub hsome, Nat.succ_mul]
        omega
  | launchPid =>
    have hslept : slept cfg (if cfg.heartbeatInterval = 0 then .off else .sleeping) = 0 := by
      split <;> rfl
    refine h.frame hclock rfl ?_
    show s.consecutiveFails * cfg.intervalMillis + slept cfg (if _ then _ else _) + since ≤ _
    rw [hslept]
    omega
  | _ => exact h.frame hclock rfl (Nat.add_le_add_left hle _)

/-- **The kills are apart**: in a stretch of time there is at most one kill more than there are
times in it that the heartbeat needs to use up the fails, at one interval each. -/
theorem kills_apart (ht : (paced cfg timing).Reachable (fun _ _ => True) t)
    (hp : (paced cfg timing).Path (fun _ _ => True) t as t') :
    (t'.state.kills.length - (t.state.kills.length + 1)) *
      (cfg.heartbeatMaxFails * cfg.intervalMillis) + t.state.clock ≤ t'.state.clock := by
  have hspaced : Spaced cfg (t.state.kills.length + 1) t.state.clock t'.state t'.since := by
    induction hp with
    | nil => exact ⟨Nat.le_refl _, Nat.le_refl _, fun h => absurd h (Nat.not_succ_le_self _)⟩
    | snoc hp _ h ih =>
      have ht₁ := ht.path hp
      obtain ⟨htrans, hready, hsince⟩ := trans_of_paced h
      exact ih.step (counter_of_reachable (reachable_of_paced ht₁)) (since_le_clock ht₁) htrans
        hready hsince
  have hstart := since_le_clock (ht.path hp)
  have hclock := hspaced.clock
  rcases Nat.lt_or_ge t'.state.kills.length (t.state.kills.length + 1) with hnone | hsome
  · rw [Nat.sub_eq_zero_of_le hnone.le, Nat.zero_mul]
    omega
  · have hbound := hspaced.spaced hsome
    omega

/-- Three ticks in which the worker answers nothing, each after a sleep of 30 s, and its kill. -/
def unanswered : List Action :=
  [.wait 30000, .heartbeat, .probed .ioError, .heartbeat, .heartbeat,
    .wait 30000, .heartbeat, .probed .ioError, .heartbeat, .heartbeat,
    .wait 30000, .heartbeat, .probed .ioError, .heartbeat, .heartbeat, .heartbeat, .heartbeat]

theorem kills_apart_unanswered :
    ∃ t ∈ (paced defaultConfig ⟨15000, 0⟩).runUnder (fun _ _ => True) ⟨State.launched 7, 0⟩
        ([.watchdog, .watchdog] ++ (unanswered ++ unanswered)),
      t.state.kills.length = 2 ∧ t.state.clock = 180000 ∧
        (2 - (0 + 1)) * (3 * 30000) + 0 ≤ 180000 := by
  obtain ⟨t, ht, hkills, hclock⟩ :
      ∃ t ∈ (paced defaultConfig ⟨15000, 0⟩).runUnder (fun _ _ => True) ⟨State.launched 7, 0⟩
          ([.watchdog, .watchdog] ++ (unanswered ++ unanswered)),
        t.state.kills.length = 2 ∧ t.state.clock = 180000 := by
    decide
  have hinit : (paced defaultConfig ⟨15000, 0⟩).Init ⟨State.launched 7, 0⟩ :=
    ⟨⟨7, 0, by decide, rfl⟩, rfl⟩
  have hbound := kills_apart (.init hinit) (.of_runUnder ht)
  rw [hkills, hclock] at hbound
  exact ⟨t, ht, hkills, hclock, hbound⟩

end OxEmbed.Supervisor

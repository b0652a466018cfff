import OxEmbed.Supervisor.Heartbeat
import OxEmbed.Supervisor.Pool

/-!
# The wedge detector cannot be masked

A failed probe is forgiven while a dispatch has stamped a success within the freshness window, and
a tick that meets no worker starts the counter over. Neither hides a worker that is wedged: the
counter is a fold over the outcomes of the ticks, only a dispatch that received a good response
stamps, and when the last stamp has aged past the window every further tick counts, until the fails
are used up. A tick takes at most six steps of the heartbeat and of its probe, none of which waits
for the worker beyond the timeout of the probe.

The freshness window is a `Duration`. The code compares with its milliseconds as a `u64`, which
keeps the low 64 bits, so the window that it uses may be shorter than the one that was set, but
never longer.

## Main definitions

* `Config.withWindow` : the values with a freshness window of any length.
* `HeartbeatOutcome.fails`, `failsAfter` : the counter after a tick, and after a list of ticks.
* `Aged` : the last success has aged past the window.
* `Wedged` : the condition on the steps of a worker that fails every probe and completes nothing.
* `DetectsWedge` : the property of the detector.

## Main results

* `counter_of_reachable` : the counter in every reachable state.
* `stamped_of_reachable` : the stamp of the last success in every reachable state.
* `progress_of_path` : the steps of the heartbeat and of its probe end ticks.
* `kill_of_wedged` : when the kill is issued.
* `detectsWedge` : the detector cannot be masked, for every configuration and every window.
-/

namespace OxEmbed.Supervisor

/-! ### The property -/

/-- The values with a freshness window of some milliseconds; `as_millis() as u64` keeps the low 64
bits. -/
def Config.withWindow (cfg : Config) (millis : ℕ) : Config :=
  { cfg with heartbeatFreshnessWindow := millis % 2 ^ 64 }

/-- The fail counter after a tick, from its value before. -/
def HeartbeatOutcome.fails (n : ℕ) : HeartbeatOutcome → ℕ
  | .ok | .skipped | .killed => 0
  | .suppressed => n
  | .failed => n + 1

/-- The fail counter after the ticks. -/
def failsAfter (ticks : List Tick) : ℕ := ticks.foldl (fun n t => t.outcome.fails n) 0

/-- The last success has aged past the window, or there was none. -/
def Aged (window : ℕ) (s : State) : Prop := s.lastSuccess = 0 ∨ s.lastSuccess + window ≤ s.clock

/-- The dispatch that a step stamps. -/
def Action.stamp? : Action → Option ℕ
  | .stamp k => some k
  | _ => none

/-- The client slot and the pid are set, the step is no good answer to a probe, and no dispatch
stamps a success. -/
def Wedged (s : State) (a : Action) : Prop :=
  s.clientSlot ≠ none ∧ s.currentPid ≠ 0 ∧ a ≠ .probed .ok ∧ ∀ k, a ≠ .stamp k

/-- One while a tick has begun and not ended. -/
def HeartbeatPhase.inTick : HeartbeatPhase → ℕ
  | .off | .sleeping => 0
  | _ => 1

/-- A step of the heartbeat or the end of its probe. -/
def Action.ofHeartbeat : Action → Bool
  | .heartbeat | .probed _ => true
  | _ => false

/-- The detector cannot be masked. -/
structure DetectsWedge (cfg : Config) (window : ℕ) : Prop where
  /-- Between ticks fewer fails are counted than are allowed. -/
  below : ∀ s, (machine cfg).Reachable (fun _ _ => True) s → s.heartbeat = .sleeping →
    s.consecutiveFails < cfg.heartbeatMaxFails
  /-- A suppressed or skipped tick never increases the counter. -/
  kept : ∀ s as s' t, (machine cfg).Reachable (fun _ _ => True) s →
    (machine cfg).Path (fun _ _ => True) s as s' → s.heartbeat = .sleeping →
    s'.heartbeat = .sleeping → s'.ticks = s.ticks ++ [t] →
    t.outcome = .suppressed ∨ t.outcome = .skipped → s'.consecutiveFails ≤ s.consecutiveFails
  /-- A tick is suppressed only if a completed inference was stamped, and its stamp was within the
  window when the tick read the clock. -/
  fresh : ∀ s a s' t, (machine cfg).Reachable (fun _ _ => True) s →
    (machine cfg).step s a = some s' → s'.ticks = s.ticks ++ [t] → t.outcome = .suppressed →
    ∃ p now x time, s.heartbeat = .judged p now ∧ s.stamps.getLast? = some (x, time) ∧
      x ∈ s.completed ∧ 0 < time ∧ now < time + window
  /-- Only `record_success` stamps, so probes never do. -/
  stamped : ∀ s a s', (machine cfg).step s a = some s' → (∀ k, a ≠ .stamp k) →
    s'.lastSuccess = s.lastSuccess ∧ s'.stamps = s.stamps
  /-- Only a dispatch that receives a response other than an error calls `record_success`. -/
  dispatched : ∀ (F : Type) (pool : Pool.PoolConfig) (s s' : Pool.State F) (a : Pool.Action F)
    (sup : ℕ), Pool.step pool s a = some s' → s'.lastSuccess sup ≠ s.lastSuccess sup →
    ∃ i call client resp, a = .ipc i (.answered (.ok resp)) ∧ s.calls[i]? = some call ∧
      call.phase = .reading sup client ∧ Pool.IsSuccess resp = true ∧ call.probe = false
  /-- A tick can always go on: the probe times out at the latest. -/
  proceeds : ∀ s : State, s.heartbeat ≠ .off →
    (step cfg s .heartbeat).isSome = true ∨ (step cfg s (.probed .timeout)).isSome = true
  /-- Ticks end: one of any six steps of the heartbeat and of its probe ends a tick. -/
  ends : ∀ s as s' n, (machine cfg).Reachable (fun _ _ => True) s → s.heartbeat ≠ .off →
    (machine cfg).Path (fun _ _ => True) s as s' → 6 * n ≤ as.countP Action.ofHeartbeat →
    s.ticks.length + n ≤ s'.ticks.length
  /-- When the last success has aged, a wedged worker is killed by the end of the tick that spends
  the fails, not counting a tick that has begun before. -/
  kill : ∀ s as s', (machine cfg).Reachable (fun _ _ => True) s → Aged window s →
    (machine cfg).Path Wedged s as s' →
    s.ticks.length + s.heartbeat.inTick + cfg.heartbeatMaxFails ≤ s'.ticks.length →
    s.kills.length < s'.kills.length

variable {cfg : Config} {s s' t : State} {a : Action} {C : State → Action → Prop} {window : ℕ}

/-! ### The counter -/

theorem failsAfter_append (ticks : List Tick) (t : Tick) :
    failsAfter (ticks ++ [t]) = t.outcome.fails (failsAfter ticks) := by
  rw [failsAfter, List.foldl_append]
  rfl

/-- The counter is determined by the outcomes of the ticks that have ended. -/
structure Counter (cfg : Config) (s : State) : Prop where
  fails : s.consecutiveFails = failsAfter s.ticks + s.heartbeat.Spent.toNat
  below : failsAfter s.ticks < cfg.heartbeatMaxFails
  spent : s.heartbeat.Spent = true → s.consecutiveFails = cfg.heartbeatMaxFails

/-- A tick ends with the counter at zero. -/
theorem Counter.reset (s : State) (outcome : HeartbeatOutcome)
    (hzero : ∀ n, outcome.fails n = 0) (p : Option Probe) :
    Counter cfg (s.resetFails.endTick outcome p) := by
  have hafter : failsAfter (s.resetFails.endTick outcome p).ticks = 0 := by
    rw [State.endTick, failsAfter_append, hzero]
  refine ⟨?_, ?_, nofun⟩
  · rw [hafter]
    rfl
  · rw [hafter]
    exact cfg.maxFails_pos

/-- **Step lemma.** Every step keeps the counter. -/
theorem counter_of_step (hb : Bookkeeping s) (h : Counter cfg s) (hstep : Trans cfg s a s') :
    Counter cfg s' := by
  -- a phase in which the fails are not used up
  have hunspent {phase : HeartbeatPhase} (hh : s.heartbeat = phase) (hphase : phase.Spent = false) :
      s.consecutiveFails = failsAfter s.ticks := by
    have hfails := h.fails
    rwa [hh, hphase] at hfails
  cases hstep with
  | @launchPid i hw =>
    have hoff := hb.launching (by rw [hw]; rfl)
    have hphase : (if cfg.heartbeatInterval = 0 then HeartbeatPhase.off
        else .sleeping).Spent = false := by
      split <;> rfl
    refine ⟨?_, h.below, fun hspent => ?_⟩
    · show s.consecutiveFails = failsAfter s.ticks + (HeartbeatPhase.Spent _).toNat
      rw [hphase]
      exact hunspent hoff rfl
    · rw [hphase] at hspent
      cases hspent
  | skip => exact .reset s .skipped (fun _ => rfl) none
  | @probe i hh => exact ⟨hunspent hh rfl, h.below, nofun⟩
  | connect hh => exact ⟨hunspent hh rfl, h.below, nofun⟩
  | @probeOk p hh => exact .reset s .ok (fun _ => rfl) (some p)
  | probeFailed _ hh | judge hh => exact ⟨hunspent hh rfl, h.below, nofun⟩
  | @suppress p now hh =>
    have hafter : failsAfter (s.endTick .suppressed (some p)).ticks = failsAfter s.ticks :=
      failsAfter_append ..
    refine ⟨?_, hafter ▸ h.below, nofun⟩
    rw [hafter]
    exact hunspent hh rfl
  | @count p now hh hstale hmore =>
    have hafter : failsAfter ((s.countFail p).endTick .failed (some p)).ticks =
        failsAfter s.ticks + 1 := failsAfter_append ..
    rw [hunspent hh rfl] at hmore
    refine ⟨?_, hafter ▸ hmore, nofun⟩
    rw [hafter]
    exact congrArg (· + 1) (hunspent hh rfl)
  | @spend p now hh hstale hmax =>
    have hfails := hunspent hh rfl
    refine ⟨congrArg (· + 1) hfails, h.below, fun _ => Nat.le_antisymm ?_ hmax⟩
    show s.consecutiveFails + 1 ≤ cfg.heartbeatMaxFails
    rw [hfails]
    exact h.below
  | @noPid p hh => exact .reset s .skipped (fun _ => rfl) (some p)
  | @loadPid p hh =>
    have hspent : s.heartbeat.Spent = true := by rw [hh]; rfl
    have hfails := h.fails
    rw [hspent] at hfails
    exact ⟨hfails, h.below, fun _ => h.spent hspent⟩
  | @kill p pid hh => exact .reset (s.kill pid) .killed (fun _ => rfl) (some p)
  | _ => exact ⟨h.fails, h.below, h.spent⟩

/-- **Run lemma.** The counter in every reachable state. -/
theorem counter_of_reachable (hs : (machine cfg).Reachable C s) : Counter cfg s := by
  refine hs.invariant_of_reachable ?_ fun _ _ _ hreach h _ hstep =>
    counter_of_step (bookkeeping_of_reachable hreach) h (trans_of_step hstep)
  rintro _ ⟨pid, clock, -, rfl⟩
  exact ⟨rfl, cfg.maxFails_pos, nofun⟩

/-- Between ticks the counter is that of the ticks that have ended. -/
theorem Counter.sleeping (h : Counter cfg s) (hh : s.heartbeat = .sleeping) :
    s.consecutiveFails = failsAfter s.ticks := by
  have hfails := h.fails
  rwa [hh] at hfails

/-! ### The stamp of the last success -/

/-- The stamp is that of the dispatch that stamped last. -/
structure Stamped (s : State) : Prop where
  last : s.lastSuccess = (s.stamps.getLast?.map Prod.snd).getD 0
  unstamped : ∀ x ∈ s.unstamped, x ∈ s.completed
  stamps : ∀ y ∈ s.stamps, y.1 ∈ s.completed

/-- **Step lemma.** Every step keeps the stamp. -/
theorem stamped_of_step (h : Stamped s) (hstep : Trans cfg s a s') : Stamped s' := by
  cases hstep with
  | @complete i hi =>
    refine ⟨h.last, fun x hx => ?_, fun y hy => List.mem_append_left _ (h.stamps y hy)⟩
    rcases List.mem_append.mp hx with hx | hx
    · exact List.mem_append_left _ (h.unstamped x hx)
    · exact List.mem_append_right _ hx
  | @stamp k x hx =>
    refine ⟨?_, fun y hy => h.unstamped y (List.mem_of_mem_eraseIdx hy), fun y hy => ?_⟩
    · show s.clock = ((s.stamps ++ [(x, s.clock)]).getLast?.map Prod.snd).getD 0
      rw [List.getLast?_concat]
      rfl
    · rcases List.mem_append.mp hy with hy | hy
      · exact h.stamps y hy
      · rw [List.mem_singleton.mp hy]
        exact h.unstamped x (List.mem_of_getElem? hx)
  | _ => exact ⟨h.last, h.unstamped, h.stamps⟩

/-- **Run lemma.** The stamp of the last success in every reachable state. -/
theorem stamped_of_reachable (hs : (machine cfg).Reachable C s) : Stamped s := by
  refine hs.invariant ?_ fun _ _ _ h _ hstep => stamped_of_step h (trans_of_step hstep)
  rintro _ ⟨pid, clock, -, rfl⟩
  exact ⟨rfl, nofun, nofun⟩

/-- Only `record_success` stamps. -/
theorem lastSuccess_of_step (hstep : Trans cfg s a s') (ha : ∀ k, a ≠ .stamp k) :
    s'.lastSuccess = s.lastSuccess ∧ s'.stamps = s.stamps := by
  cases hstep with
  | @stamp k => exact absurd rfl (ha k)
  | _ => exact ⟨rfl, rfl⟩

/-- A tick that ends as suppressed has read the clock within the window. -/
theorem judged_of_suppressed {tick : Tick} (hstep : Trans cfg s a s')
    (hticks : s'.ticks = s.ticks ++ [tick]) (houtcome : tick.outcome = .suppressed) :
    ∃ p now, s.heartbeat = .judged p now ∧ tick.probe = some p ∧ 0 < s.lastSuccess ∧
      now - s.lastSuccess < cfg.heartbeatFreshnessWindow := by
  have hsame (h : s'.ticks = s.ticks) : False := by
    rw [h] at hticks
    exact absurd hticks (by simp)
  have hended {outcome : HeartbeatOutcome} {p : Option Probe}
      (h : s'.ticks = s.ticks ++ [⟨outcome, p, s.clock⟩]) :
      outcome = .suppressed ∧ tick.probe = p := by
    rw [h] at hticks
    have heq := List.singleton_inj.mp (List.append_cancel_left hticks)
    rw [← houtcome, ← heq]
    exact ⟨rfl, rfl⟩
  cases hstep with
  | suppress hh hlast hfresh => exact ⟨_, _, hh, (hended rfl).2, hlast, hfresh⟩
  | skip | probeOk | count | noPid | kill => cases (hended rfl).1
  | _ => exact (hsame rfl).elim

/-! ### The end of a tick -/

/-- The steps of a tick that are done. -/
def HeartbeatPhase.position : HeartbeatPhase → ℕ
  | .off | .sleeping => 0
  | .probing _ => 1
  | .judging _ => 2
  | .judged _ _ => 3
  | .loadPid _ => 4
  | .killing _ _ => 5

/-- The steps of the heartbeat and of its probe, when each tick takes six. -/
def State.progress (s : State) : ℕ := 6 * s.ticks.length + s.heartbeat.position

theorem progress_endTick (s : State) (outcome : HeartbeatOutcome) (p : Option Probe) :
    (s.endTick outcome p).progress = 6 * s.ticks.length + 6 := by
  show 6 * (s.ticks ++ [_]).length + 0 = _
  rw [List.length_append, List.length_singleton]
  omega

/-- **Step lemma.** A step of the heartbeat or of its probe makes progress, and no step undoes
it. -/
theorem progress_of_step (hb : Bookkeeping s) (hon : s.heartbeat ≠ .off)
    (hstep : Trans cfg s a s') :
    s'.heartbeat ≠ .off ∧ s.progress + a.ofHeartbeat.toNat ≤ s'.progress := by
  cases hstep with
  | launchPid hw => exact absurd (hb.launching (by rw [hw]; rfl)) hon
  | skip hh | probeOk hh | suppress hh | count hh | noPid hh | kill hh =>
    refine ⟨by rintro ⟨⟩, ?_⟩
    rw [progress_endTick, State.progress, hh]
    simp [HeartbeatPhase.position, Action.ofHeartbeat, State.resetFails, State.countFail,
      State.kill]
  | probe hh | judge hh | spend hh | loadPid hh =>
    refine ⟨by rintro ⟨⟩, ?_⟩
    simp [State.progress, hh, HeartbeatPhase.position, Action.ofHeartbeat, State.countFail]
  | connect hh | probeFailed _ hh =>
    refine ⟨by rintro ⟨⟩, ?_⟩
    simp [State.progress, hh, HeartbeatPhase.position, Action.ofHeartbeat]
  | _ => exact ⟨hon, Nat.le_refl _⟩

/-- **Run lemma.** Every step of the heartbeat and of its probe counts. -/
theorem progress_of_path {as : List Action} (hs : (machine cfg).Reachable C s)
    (hon : s.heartbeat ≠ .off) (hp : (machine cfg).Path C s as s') :
    s'.heartbeat ≠ .off ∧ s.progress + as.countP Action.ofHeartbeat ≤ s'.progress := by
  induction hp with
  | nil => exact ⟨hon, Nat.le_refl _⟩
  | @snoc s₁ s₂ a as hp _ h ih =>
    obtain ⟨hon₂, hstep⟩ :=
      progress_of_step (bookkeeping_of_reachable (hs.path hp)) ih.1 (trans_of_step h)
    refine ⟨hon₂, ?_⟩
    rw [List.countP_append, List.countP_singleton]
    have hcount : (if a.ofHeartbeat = true then 1 else 0) = a.ofHeartbeat.toNat := by
      cases a.ofHeartbeat <;> rfl
    rw [hcount]
    have := ih.2
    omega

/-- One of any six steps of the heartbeat and of its probe ends a tick. -/
theorem ticks_of_path {as : List Action} {n : ℕ} (hs : (machine cfg).Reachable C s)
    (hon : s.heartbeat ≠ .off) (hp : (machine cfg).Path C s as s')
    (hn : 6 * n ≤ as.countP Action.ofHeartbeat) : s.ticks.length + n ≤ s'.ticks.length := by
  have hprogress := (progress_of_path hs hon hp).2
  have hposition : s'.heartbeat.position ≤ 5 := by
    cases s'.heartbeat <;> simp [HeartbeatPhase.position]
  rw [State.progress, State.progress] at hprogress
  omega

/-! ### The kill -/

/-- What holds from a state `s` on in which the last success has aged, while the worker is wedged:
every tick that has read the clock since then counts. -/
structure Escalating (s t : State) : Prop where
  last : t.lastSuccess = s.lastSuccess
  clock : s.clock ≤ t.clock
  kills : s.kills.length ≤ t.kills.length
  count : t.kills.length = s.kills.length →
    t.ticks.length + t.heartbeat.Spent.toNat ≤
      s.ticks.length + s.heartbeat.inTick + t.consecutiveFails
  /-- A tick that has read the clock before had begun before. -/
  judged : t.kills.length = s.kills.length → ∀ p now, t.heartbeat = .judged p now →
    t.ticks.length < s.ticks.length + s.heartbeat.inTick ∨ s.clock ≤ now

theorem escalating_refl (s : State) : Escalating s s := by
  refine ⟨rfl, Nat.le_refl _, Nat.le_refl _, fun _ => ?_, fun _ p now hh => .inl ?_⟩
  · cases hh : s.heartbeat <;> simp [HeartbeatPhase.inTick, HeartbeatPhase.Spent] <;> omega
  · rw [hh]
    exact Nat.lt_succ_self _

/-- A step that keeps the counts and the phase of the heartbeat. -/
theorem Escalating.frame {t' : State} (h : Escalating s t) (hlast : t'.lastSuccess = t.lastSuccess)
    (hclock : t.clock ≤ t'.clock) (hkills : t'.kills = t.kills) (hticks : t'.ticks = t.ticks)
    (hfails : t'.consecutiveFails = t.consecutiveFails)
    (hspent : t'.heartbeat.Spent = true → t.heartbeat.Spent = true)
    (hjudged : ∀ p now, t'.heartbeat = .judged p now →
      t.heartbeat = .judged p now ∨ now = t.clock) : Escalating s t' := by
  refine ⟨hlast.trans h.last, h.clock.trans hclock, hkills ▸ h.kills, fun hnone => ?_,
    fun hnone p now hh => ?_⟩
  · rw [hkills] at hnone
    have hle : t'.heartbeat.Spent.toNat ≤ t.heartbeat.Spent.toNat := by
      cases hp : t'.heartbeat.Spent with
      | false => exact Nat.zero_le _
      | true => rw [hspent hp]
    rw [hticks, hfails]
    exact (Nat.add_le_add_left hle _).trans (h.count hnone)
  · rw [hkills] at hnone
    rw [hticks]
    rcases hjudged p now hh with hh | rfl
    · exact h.judged hnone p now hh
    · exact .inr h.clock

/-- **Step lemma.** A step of a wedged worker keeps the count. -/
theorem Escalating.trans {t' : State} (h : Escalating s t)
    (haged : ∀ now, s.clock ≤ now →
      ¬ (0 < s.lastSuccess ∧ now - s.lastSuccess < cfg.heartbeatFreshnessWindow))
    (hC : Wedged t a) (hstep : Trans cfg t a t') : Escalating s t' := by
  obtain ⟨hslot, hpid, hok, hstamp⟩ := hC
  cases hstep with
  | wait d =>
    exact h.frame rfl (Nat.le_add_right _ _) rfl rfl rfl id fun _ _ => .inl
  | stamp => exact absurd rfl (hstamp _)
  | skip _ hnone => exact absurd hnone hslot
  | probeOk => exact absurd rfl hok
  | noPid _ hzero => exact absurd hzero hpid
  | launchPid =>
    refine h.frame rfl (Nat.le_refl _) rfl rfl rfl ?_ ?_ <;> dsimp only <;> split <;> nofun
  | probe | connect | probeFailed =>
    exact h.frame rfl (Nat.le_refl _) rfl rfl rfl nofun nofun
  | judge =>
    refine h.frame rfl (Nat.le_refl _) rfl rfl rfl nofun fun p now hh => .inr ?_
    exact (HeartbeatPhase.judged.inj hh).2.symm
  | loadPid hh =>
    exact h.frame rfl (Nat.le_refl _) rfl rfl rfl (fun _ => by rw [hh]; rfl) nofun
  | @suppress p now hh hlast hfresh =>
    -- the clock was read before, so the tick had begun before
    refine ⟨h.last, h.clock, h.kills, fun hnone => ?_, nofun⟩
    rcases h.judged hnone p now hh with hbefore | hnow
    · show (t.ticks ++ [_]).length + 0 ≤ _ + t.consecutiveFails
      rw [List.length_append, List.length_singleton]
      omega
    · rw [h.last] at hlast hfresh
      exact absurd ⟨hlast, hfresh⟩ (haged now hnow)
  | @count p now hh hstale hmore =>
    refine ⟨h.last, h.clock, h.kills, fun hnone => ?_, nofun⟩
    have hcount := h.count hnone
    show (t.ticks ++ [_]).length + 0 ≤ _ + (t.consecutiveFails + 1)
    rw [List.length_append, List.length_singleton]
    omega
  | @spend p now hh hstale hmax =>
    refine ⟨h.last, h.clock, h.kills, fun hnone => ?_, nofun⟩
    have hcount := h.count hnone
    rw [hh] at hcount
    show t.ticks.length + 1 ≤ _ + (t.consecutiveFails + 1)
    exact Nat.succ_le_succ hcount
  | @kill p pid hh =>
    let sent : Kill := ⟨pid, t.holder pid, t.counted⟩
    have hgrow : s.kills.length < (t.kills ++ [sent]).length := by
      rw [List.length_append, List.length_singleton]
      exact Nat.lt_succ_of_le h.kills
    exact ⟨h.last, h.clock, hgrow.le, fun hnone => absurd hnone hgrow.ne',
      fun hnone => absurd hnone hgrow.ne'⟩
  | _ => exact h.frame rfl (Nat.le_refl _) rfl rfl rfl id fun _ _ => .inl

theorem stale_of_aged (haged : Aged window s) (hwindow : cfg.heartbeatFreshnessWindow ≤ window) :
    ∀ now, s.clock ≤ now →
      ¬ (0 < s.lastSuccess ∧ now - s.lastSuccess < cfg.heartbeatFreshnessWindow) := by
  rintro now hnow ⟨hlast, hfresh⟩
  rcases haged with hzero | hold <;> omega

/-- **A wedged worker is killed** by the end of the tick that spends the fails, counted from the
state in which the last success has aged. -/
theorem kill_of_wedged {as : List Action} (hs : (machine cfg).Reachable (fun _ _ => True) s)
    (haged : Aged window s) (hwindow : cfg.heartbeatFreshnessWindow ≤ window)
    (hp : (machine cfg).Path Wedged s as s')
    (hticks : s.ticks.length + s.heartbeat.inTick + cfg.heartbeatMaxFails ≤ s'.ticks.length) :
    s.kills.length < s'.kills.length := by
  have hescalating : Escalating s s' := by
    have hstale := stale_of_aged haged hwindow
    clear hticks
    induction hp with
    | nil => exact escalating_refl s
    | snoc _ hC h ih => exact ih.trans hstale hC (trans_of_step h)
  have hcounter : Counter cfg s' :=
    counter_of_reachable (hs.path (hp.of_forall_mem fun _ _ _ => trivial))
  refine lt_of_le_of_ne hescalating.kills fun hnone => ?_
  have hcount := hescalating.count hnone.symm
  cases hspent : s'.heartbeat.Spent with
  | false =>
    have hfails := hcounter.fails
    have hbelow := hcounter.below
    rw [hspent] at hcount hfails
    simp only [Bool.toNat_false] at hcount hfails
    omega
  | true =>
    have hfails := hcounter.spent hspent
    rw [hspent] at hcount
    simp only [Bool.toNat_true] at hcount
    omega

/-! ### The detector -/

/-- A tick can always go on. -/
theorem heartbeat_proceeds (hon : s.heartbeat ≠ .off) :
    (step cfg s .heartbeat).isSome = true ∨ (step cfg s (.probed .timeout)).isSome = true := by
  simp only [step, heartbeatStep]
  cases hh : s.heartbeat with
  | off => exact absurd hh hon
  | sleeping => cases s.clientSlot <;> exact .inl rfl
  | probing p => exact .inr rfl
  | judging | killing => exact .inl rfl
  | judged p now =>
    left
    dsimp only
    split
    · rfl
    · split <;> rfl
  | loadPid p =>
    left
    dsimp only
    split <;> rfl

/-- **The wedge detector cannot be masked**, for every configuration and every freshness
window. -/
theorem detectsWedge (cfg : Config) (window : ℕ) : DetectsWedge (cfg.withWindow window) window := by
  have hwindow : (cfg.withWindow window).heartbeatFreshnessWindow ≤ window := Nat.mod_le _ _
  refine ⟨fun s hs hh => ?_, fun s as s' t hs hp hh hh' hticks ht => ?_,
    fun s a s' t hs hstep hticks ht => ?_, fun s a s' hstep => lastSuccess_of_step
    (trans_of_step hstep), fun _ _ _ _ _ _ => Pool.answered_of_lastSuccess_ne,
    fun _ => heartbeat_proceeds, fun s as s' n hs hon hp => ticks_of_path hs hon hp,
    fun s as s' hs haged => kill_of_wedged hs haged hwindow⟩
  · have hcounter := counter_of_reachable hs
    rw [hcounter.sleeping hh]
    exact hcounter.below
  · rw [(counter_of_reachable hs).sleeping hh,
      (counter_of_reachable (hs.path hp)).sleeping hh', hticks, failsAfter_append]
    rcases ht with ht | ht
    · rw [ht]
      exact Nat.le_refl _
    · rw [ht]
      exact Nat.zero_le _
  · obtain ⟨p, now, hh, -, hlast, hfresh⟩ := judged_of_suppressed (trans_of_step hstep) hticks ht
    have hstamped := stamped_of_reachable hs
    match hstamps : s.stamps.getLast? with
    | none =>
      rw [hstamped.last, hstamps] at hlast
      cases hlast
    | some (x, time) =>
      have htime : s.lastSuccess = time := by
        rw [hstamped.last, hstamps]
        rfl
      rw [htime] at hlast hfresh
      refine ⟨p, now, x, time, hh, rfl, ?_, hlast, by omega⟩
      exact hstamped.stamps _ (List.mem_of_getLast? hstamps)

theorem stampless_iff : (a.stamp? = none) ↔ ∀ k, a ≠ .stamp k := by
  cases a <;> simp [Action.stamp?]

instance (s : State) (a : Action) : Decidable (Wedged s a) :=
  decidable_of_iff (s.clientSlot ≠ none ∧ s.currentPid ≠ 0 ∧ a ≠ .probed .ok ∧ a.stamp? = none)
    (by rw [Wedged, stampless_iff])

/-- A failed probe is forgiven while the success is fresh; when it has aged, the third failed tick
kills the worker. -/
theorem detectsWedge_thirdFail :
    ∃ s s' as, (machine (defaultConfig.withWindow 90000)).Reachable (fun _ _ => True) s ∧
      (machine (defaultConfig.withWindow 90000)).Path Wedged s as s' ∧
      s.ticks.map Tick.outcome = [.suppressed] ∧
      s'.ticks.map Tick.outcome = [.suppressed, .failed, .failed, .killed] ∧
      s.kills.length < s'.kills.length := by
  obtain ⟨s, hs, hsleeping, haged, hticks, s', hs', hticks'⟩ :
      ∃ s ∈ (machine (defaultConfig.withWindow 90000)).runUnder (fun _ _ => True) (.launched 7)
          [.watchdog, .watchdog, .complete 0, .wait 1000, .stamp 0, .heartbeat, .probed .timeout,
            .heartbeat, .heartbeat, .wait 90000],
        s.heartbeat = .sleeping ∧ (s.lastSuccess = 0 ∨ s.lastSuccess + 90000 ≤ s.clock) ∧
          s.ticks.map Tick.outcome = [.suppressed] ∧
          ∃ s' ∈ (machine (defaultConfig.withWindow 90000)).runUnder Wedged s
              [.heartbeat, .probed .ioError, .heartbeat, .heartbeat, .heartbeat, .probed .timeout,
                .heartbeat, .heartbeat, .heartbeat, .connect 0, .probed .errReply, .heartbeat,
                .heartbeat, .heartbeat, .heartbeat],
            s'.ticks.map Tick.outcome = [.suppressed, .failed, .failed, .killed] := by
    decide +kernel
  have hreach : (machine (defaultConfig.withWindow 90000)).Reachable (fun _ _ => True) s :=
    .of_runUnder ⟨7, 0, by decide, rfl⟩ hs
  have hpath := Machine.Path.of_runUnder hs'
  refine ⟨s, s', _, hreach, hpath, hticks, hticks', ?_⟩
  refine (detectsWedge defaultConfig 90000).kill s _ s' hreach haged hpath ?_
  have hlen := congrArg List.length hticks
  have hlen' := congrArg List.length hticks'
  rw [List.length_map] at hlen hlen'
  rw [hlen, hlen', hsleeping]
  rfl

end OxEmbed.Supervisor

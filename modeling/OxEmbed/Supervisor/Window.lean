import OxEmbed.Supervisor.Deadline

/-!
# When the freshness window does nothing

A probe that times out has waited for the whole timeout. When the freshness window is no longer
than that, a success from before the probe has aged past the window by the time the heartbeat reads
the clock, so only a success during the wait suppresses the failure. `launch` warns when the window
is shorter than the timeout; it does not warn when the two are equal, nor when the milliseconds of
the window do not fit a `u64`.

## Main definitions

* `SuppressedTimeout` : a tick whose probe timed out and that was suppressed.
* `Inert` : no success from before the probe suppresses a timeout.

## Main results

* `inert_iff` : the windows that do nothing, in terms of the warning.
-/

namespace OxEmbed.Supervisor

/-- A tick starts in `t₀` and its probe times out; the step from `t` ends it as suppressed. -/
structure SuppressedTimeout (cfg : Config) (timing : Timing) (t₀ t : Paced State) : Prop where
  reachable : (paced cfg timing).Reachable (fun _ _ => True) t₀
  sleeping : t₀.state.heartbeat = .sleeping
  timeout : ∃ t₁ as t₂ t₃ bs, (paced cfg timing).step t₀ .heartbeat = some t₁ ∧
    (paced cfg timing).Path (fun _ _ => True) t₁ as t₂ ∧
    (paced cfg timing).step t₂ (.probed .timeout) = some t₃ ∧
    (paced cfg timing).Path (fun _ _ => True) t₃ bs t
  /-- No tick has ended meanwhile. -/
  ticks : t.state.ticks = t₀.state.ticks
  suppressed : ∃ t' tick, (paced cfg timing).step t .heartbeat = some t' ∧
    t'.state.ticks = t.state.ticks ++ [tick] ∧ tick.outcome = .suppressed

/-- Every success that suppresses a timeout was stamped after the probe was sent. -/
def Inert (cfg : Config) (timing : Timing) : Prop :=
  ∀ t₀ t, SuppressedTimeout cfg timing t₀ t → t₀.state.clock < t.state.lastSuccess

variable {cfg : Config} {timing : Timing} {s s' : State} {t t' : Paced State} {a : Action}
  {n sent due since since' : ℕ}

/-! ### A short window -/

/-- While the tick after the first `n` goes on, its probe was sent at the start of its stage. -/
structure Sent (n sent : ℕ) (s : State) (since : ℕ) : Prop where
  begun : n ≤ s.ticks.length
  inTick : s.ticks.length = n → s.heartbeat.inTick = 1
  sent : s.ticks.length = n → ∀ p, s.heartbeat = .probing p → since = sent

/-- The clock was read, or is about to be read, at a time from `due` on. -/
def HeartbeatPhase.ReadsFrom (due clock : ℕ) : HeartbeatPhase → Prop
  | .off | .sleeping | .probing _ => False
  | .judging _ => due ≤ clock
  | .judged _ now => due ≤ now
  | .loadPid _ | .killing .. => True

/-- While the tick after the first `n` goes on, it reads the clock at a time from `due` on. -/
structure Waited (n due : ℕ) (s : State) : Prop where
  begun : n ≤ s.ticks.length
  reads : s.ticks.length = n → s.heartbeat.ReadsFrom due s.clock

/-- The tick has ended. -/
theorem Sent.ended (hbegun : n ≤ s.ticks.length) (hended : s'.ticks.length = s.ticks.length + 1) :
    Sent n sent s' since' := by
  refine ⟨?_, fun hn => ?_, fun hn => ?_⟩ <;> omega

theorem Waited.ended (hbegun : n ≤ s.ticks.length)
    (hended : s'.ticks.length = s.ticks.length + 1) : Waited n due s' := by
  refine ⟨?_, fun hn => ?_⟩ <;> omega

/-- **Step lemma.** Nothing but the time passes while the probe is awaited. -/
theorem Sent.step (hb : Bookkeeping s) (h : Sent n sent s since) (hstep : Trans cfg s a s')
    (hsince : since' = if (pacing cfg timing).starts s a then s'.clock else since) :
    Sent n sent s' since' := by
  have hsame (hn : s.ticks.length = n) (ha : (pacing cfg timing).starts s a =
      decide (s.heartbeat = .off)) : since' = since := by
    refine hsince.trans (if_neg ?_)
    rw [ha, decide_eq_true_iff]
    intro hoff
    have htick := h.inTick hn
    rw [hoff] at htick
    cases htick
  cases hstep with
  | skip | probeOk | suppress | count | noPid | kill => exact .ended h.begun List.length_append
  | launchPid hw =>
    have hoff := hb.launching (hw ▸ rfl)
    refine ⟨h.begun, fun hn => ?_, fun hn => ?_⟩ <;>
    · have htick := h.inTick hn
      rw [hoff] at htick
      cases htick
  | probe hh =>
    refine ⟨h.begun, fun _ => rfl, fun hn => ?_⟩
    have htick := h.inTick hn
    rw [hh] at htick
    cases htick
  | connect hh =>
    refine ⟨h.begun, fun _ => rfl, fun hn _ _ => ?_⟩
    rw [hsame hn rfl]
    exact h.sent hn _ hh
  | probeFailed | judge | spend | loadPid => exact ⟨h.begun, fun _ => rfl, fun _ => nofun⟩
  | _ =>
    refine ⟨h.begun, h.inTick, fun hn => ?_⟩
    rw [hsame hn rfl]
    exact h.sent hn

/-- **Step lemma.** The clock is read after the timeout. -/
theorem Waited.step (hb : Bookkeeping s) (h : Waited n due s) (hstep : Trans cfg s a s') :
    Waited n due s' := by
  have hphase (hn : s.ticks.length = n) {phase : HeartbeatPhase} (hh : s.heartbeat = phase) :
      phase.ReadsFrom due s.clock := hh ▸ h.reads hn
  cases hstep with
  | skip | probeOk | suppress | count | noPid | kill => exact .ended h.begun List.length_append
  | launchPid hw => exact ⟨h.begun, fun hn => (hphase hn (hb.launching (hw ▸ rfl))).elim⟩
  | probe hh | connect hh | probeFailed _ hh => exact ⟨h.begun, fun hn => (hphase hn hh).elim⟩
  | judge hh =>
    refine ⟨h.begun, fun hn => ?_⟩
    have hread : due ≤ s.clock := hphase hn hh
    exact hread
  | spend | loadPid => exact ⟨h.begun, fun _ => trivial⟩
  | wait d =>
    refine ⟨h.begun, fun hn => ?_⟩
    have hread := h.reads hn
    cases hh : s.heartbeat with
    | judging =>
      rw [hh] at hread
      exact Nat.le_add_right_of_le hread
    | _ => rwa [hh] at hread
  | _ => exact ⟨h.begun, h.reads⟩

/-- A probe that was sent at a time is awaited from then on. -/
theorem sent_of_path {as : List Action} (ht : (paced cfg timing).Reachable (fun _ _ => True) t)
    (h : Sent n sent t.state t.since) (hp : (paced cfg timing).Path (fun _ _ => True) t as t') :
    Sent n sent t'.state t'.since := by
  induction hp with
  | nil => exact h
  | snoc hp _ hstep ih =>
    obtain ⟨htrans, -, hsince⟩ := trans_of_paced hstep
    exact ih.step (bookkeeping_of_reachable (reachable_of_paced (ht.path hp))) htrans hsince

theorem waited_of_path {as : List Action} (ht : (paced cfg timing).Reachable (fun _ _ => True) t)
    (h : Waited n due t.state) (hp : (paced cfg timing).Path (fun _ _ => True) t as t') :
    Waited n due t'.state := by
  induction hp with
  | nil => exact h
  | snoc hp _ hstep ih =>
    exact ih.step (bookkeeping_of_reachable (reachable_of_paced (ht.path hp)))
      (trans_of_paced hstep).1

/-- The tick has just begun. -/
theorem sent_of_sleeping (hsleep : t.state.heartbeat = .sleeping)
    (hstep : (paced cfg timing).step t .heartbeat = some t') :
    Sent t.state.ticks.length t.state.clock t'.state t'.since := by
  obtain ⟨s, since⟩ := t
  obtain ⟨s', since'⟩ := t'
  obtain ⟨htrans, -, hsince⟩ := trans_of_paced hstep
  dsimp only at htrans hsince hsleep ⊢
  cases htrans with
  | skip => exact .ended (Nat.le_refl _) List.length_append
  | probe => exact ⟨Nat.le_refl _, fun _ => rfl, fun _ _ _ => hsince⟩
  | judge hh | suppress hh | count hh | spend hh | noPid hh | loadPid hh | kill hh =>
    cases hsleep.symm.trans hh

/-- The probe has just timed out. -/
theorem waited_of_timeout (h : Sent n sent t.state t.since)
    (hstep : (paced cfg timing).step t (.probed .timeout) = some t') :
    Waited n (sent + timing.probeTimeout) t'.state := by
  obtain ⟨s, since⟩ := t
  obtain ⟨s', since'⟩ := t'
  obtain ⟨htrans, hready, -⟩ := trans_of_paced hstep
  dsimp only at htrans hready h ⊢
  cases htrans with
  | probeFailed _ hh =>
    refine ⟨h.begun, fun hn => ?_⟩
    rw [← h.sent hn _ hh]
    exact hready

/-- A timeout is not suppressed by a success that was stamped when the probe was sent, or
before. -/
theorem inert_of_le (hwindow : cfg.heartbeatFreshnessWindow ≤ timing.probeTimeout) :
    Inert cfg timing := by
  rintro t₀ t ⟨ht₀, hsleep, ⟨t₁, as, t₂, t₃, bs, hsend, hp, htimeout, hp'⟩, hsame, t', tick, hend,
    hticks, houtcome⟩
  have ht₁ : (paced cfg timing).Reachable (fun _ _ => True) t₁ := .step ht₀ trivial hsend
  have ht₃ : (paced cfg timing).Reachable (fun _ _ => True) t₃ :=
    .step (ht₁.path hp) trivial htimeout
  have hsent := sent_of_path ht₁ (sent_of_sleeping hsleep hsend) hp
  have hwaited := waited_of_path ht₃ (waited_of_timeout hsent htimeout) hp'
  obtain ⟨p, now, hh, -, hlast, hfresh⟩ :=
    judged_of_suppressed (trans_of_paced hend).1 hticks houtcome
  have hread := hwaited.reads (congrArg List.length hsame)
  rw [hh] at hread
  have hdue : t₀.state.clock + timing.probeTimeout ≤ now := hread
  omega

/-! ### A long window -/

/-- A step of the timed supervisor. -/
theorem paced_step (hstep : step cfg s a = some s')
    (hready : since + (pacing cfg timing).earliest s a ≤ s.clock)
    (hsince : (if (pacing cfg timing).starts s a then s'.clock else since) = since')
    (hin : ∀ d ∈ stay cfg timing s'.heartbeat, s'.clock ≤ since' + d) :
    (paced cfg timing).step ⟨s, since⟩ a = some ⟨s', since'⟩ :=
  Pacing.step_eq_some_iff.2 ⟨hready, s', hstep, congrArg _ hsince, hin⟩

/-- A worker that was launched at time zero. -/
def State.started : State :=
  { State.launched 1 with
    watchdog := .waiting 0
    heartbeat := .sleeping
    currentPid := 1
    clientSlot := some 0 }

/-- It completes an inference at the time of the first tick. -/
def State.succeeded (time : ℕ) : State :=
  { State.started with
    clock := time
    lastSuccess := time
    completed := [(0, time)]
    stamps := [((0, time), time)] }

/-- It leaves a probe unanswered. -/
def State.unanswered (time now : ℕ) (phase : HeartbeatPhase) : State :=
  { State.succeeded time with
    clock := now
    heartbeat := phase }

theorem reachable_started (hinterval : cfg.heartbeatInterval ≠ 0) :
    (paced cfg timing).Reachable (fun _ _ => True) ⟨State.started, 0⟩ := by
  have hinit : (paced cfg timing).Init ⟨State.launched 1, 0⟩ := ⟨⟨1, 0, one_ne_zero, rfl⟩, rfl⟩
  have hslot : (paced cfg timing).step ⟨State.launched 1, 0⟩ .watchdog =
      some ⟨{ State.launched 1 with clientSlot := some 0, watchdog := .launchPid 0 }, 0⟩ :=
    paced_step rfl (Nat.le_refl _) rfl nofun
  refine .step (.step (.init hinit) trivial hslot) trivial (a := .watchdog)
    (paced_step ?_ (Nat.le_refl _) rfl fun d _ => Nat.zero_le _)
  rw [step, watchdogStep]
  dsimp only
  rw [if_neg hinterval]
  rfl

theorem reachable_succeeded (hinterval : cfg.heartbeatInterval ≠ 0) :
    (paced cfg timing).Reachable (fun _ _ => True)
      ⟨State.succeeded cfg.intervalMillis, 0⟩ := by
  have hin : ∀ d ∈ some (cfg.intervalMillis + timing.latency), cfg.intervalMillis ≤ 0 + d := by
    intro d hd
    cases hd
    omega
  have hwait : (paced cfg timing).step ⟨State.started, 0⟩ (.wait cfg.intervalMillis) =
      some ⟨{ State.started with clock := 0 + cfg.intervalMillis }, 0⟩ := by
    refine paced_step rfl (Nat.le_refl _) rfl ?_
    show ∀ d ∈ some (cfg.intervalMillis + timing.latency), 0 + cfg.intervalMillis ≤ 0 + d
    rwa [Nat.zero_add]
  rw [Nat.zero_add] at hwait
  refine .step (.step (.step (reachable_started hinterval) trivial hwait) trivial
    (a := .complete 0) (paced_step rfl (Nat.zero_le _) rfl hin)) trivial (a := .stamp 0)
    (paced_step rfl (Nat.zero_le _) rfl hin)

/-- With a longer window, a success from the time when the probe is sent suppresses the timeout. -/
theorem not_inert_of_lt (hinterval : cfg.heartbeatInterval ≠ 0)
    (hwindow : timing.probeTimeout < cfg.heartbeatFreshnessWindow) : ¬ Inert cfg timing := by
  intro h
  have hstart : (paced cfg timing).Reachable (fun _ _ => True)
      ⟨State.succeeded cfg.intervalMillis, 0⟩ := reachable_succeeded hinterval
  have hpos : 0 < cfg.intervalMillis := by
    rw [Config.intervalMillis]
    omega
  have hearliest : (pacing cfg timing).earliest (State.succeeded cfg.intervalMillis) .heartbeat =
      cfg.intervalMillis := rfl
  generalize htime : cfg.intervalMillis = time at hstart hpos hearliest
  obtain ⟨now, hnow⟩ : ∃ now, now = time + timing.probeTimeout := ⟨_, rfl⟩
  let p : Probe := ⟨0, none⟩
  have hsend : (paced cfg timing).step ⟨State.succeeded time, 0⟩ .heartbeat =
      some ⟨State.unanswered time time (.probing p), time⟩ := by
    refine paced_step rfl ?_ rfl fun d _ => Nat.le_add_right _ d
    rw [hearliest]
    exact (Nat.zero_add time).le
  have hwait : (paced cfg timing).step ⟨State.unanswered time time (.probing p), time⟩
      (.wait timing.probeTimeout) = some ⟨State.unanswered time now (.probing p), time⟩ := by
    rw [hnow]
    refine paced_step rfl (Nat.le_refl _) rfl fun d hd => ?_
    cases hd
    show time + timing.probeTimeout ≤ time + (timing.probeTimeout + timing.latency)
    omega
  have htimeout : (paced cfg timing).step ⟨State.unanswered time now (.probing p), time⟩
      (.probed .timeout) = some ⟨State.unanswered time now (.judging p), now⟩ :=
    paced_step rfl hnow.ge rfl fun d _ => Nat.le_add_right _ d
  have hjudge : (paced cfg timing).step ⟨State.unanswered time now (.judging p), now⟩ .heartbeat =
      some ⟨State.unanswered time now (.judged p now), now⟩ :=
    paced_step rfl (Nat.le_refl _) rfl fun d _ => Nat.le_add_right _ d
  have hsuppress : (paced cfg timing).step ⟨State.unanswered time now (.judged p now), now⟩
      .heartbeat =
        some ⟨(State.unanswered time now (.judged p now)).endTick .suppressed (some p), now⟩ := by
    refine paced_step ?_ (Nat.le_refl _) rfl fun d _ => Nat.le_add_right _ d
    have hfresh : 0 < time ∧ now - time < cfg.heartbeatFreshnessWindow :=
      ⟨hpos, by omega⟩
    exact if_pos hfresh
  refine absurd (h _ _ ⟨hstart, rfl, ⟨_, _, _, _, _, hsend,
    .snoc .nil trivial hwait, htimeout, .snoc .nil trivial hjudge⟩, rfl, _, _, hsuppress, rfl, rfl⟩)
    (Nat.lt_irrefl _)

/-! ### The warning -/

/-- **The windows that do nothing** are those that `launch` warns about, those that are equal to
the timeout, and those whose milliseconds are cut off to no more than the timeout. -/
theorem inert_iff (env : Startup.Env) (latency : ℕ) :
    Inert (launchConfig env) (launchTiming env latency) ↔
      warnsInert env = true ∨
        heartbeatFreshnessWindow env * 1000 = heartbeatProbeTimeout env ∨
        2 ^ 64 ≤ heartbeatFreshnessWindow env * 1000 ∧
          heartbeatFreshnessWindow env * 1000 % 2 ^ 64 ≤ heartbeatProbeTimeout env := by
  have hinterval : heartbeatInterval env ≠ 0 := (heartbeatInterval_pos env).ne'
  have hinert : Inert (launchConfig env) (launchTiming env latency) ↔
      heartbeatFreshnessWindow env * 1000 % 2 ^ 64 ≤ heartbeatProbeTimeout env :=
    ⟨fun h => Nat.le_of_not_lt fun hlt => not_inert_of_lt hinterval hlt h,
      fun h => inert_of_le h⟩
  have hwarns : warnsInert env = true ↔
      heartbeatFreshnessWindow env * 1000 < heartbeatProbeTimeout env := by
    rw [warnsInert, Bool.and_eq_true, decide_eq_true_iff, freshnessWindowIsInert,
      decide_eq_true_iff]
    exact and_iff_right hinterval
  rw [hinert, hwarns]
  omega

end OxEmbed.Supervisor

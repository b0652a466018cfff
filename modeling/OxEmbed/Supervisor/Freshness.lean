import OxEmbed.Supervisor.Wedge

/-!
# Whose success suppresses a failed probe

A failed probe is forgiven while the stamp of the last success is fresh. The stamp belongs to the
supervisor and outlives the worker: a respawn does not clear it, and a dispatch may stamp a success
that an earlier instance completed. So the stamp is evidence about the instance that was probed as
long as the stamp has aged past the window when a new instance is forked, no tick is in flight then,
and a dispatch stamps its success at once. When an instance is forked while the stamp is fresh, its
first failed probe can be forgiven although it never completed an inference.

## Main definitions

* `Probe.worker` : the instance that was probed.
* `SuppressedOnEvidence` : a suppressed tick has probed an instance that completed an inference
  within the window.
* `NotInherited` : the condition on the steps.
* `Evidence` : the invariant.

## Main results

* `evidence_of_reachable` : the invariant of the runs that meet the condition.
* `suppressedOnEvidence_of_notInherited` : when suppression is evidence, and when it is not.
* `suppressed_after_respawn` : a run that forgives an instance which completed nothing.
-/

namespace OxEmbed.Supervisor

/-! ### The property and the condition -/

/-- The instance that was probed: the one that the probe connected to, if it did. -/
def Probe.worker (p : Probe) : ℕ := p.reached.getD p.client

/-- When a tick ends as suppressed, the instance that it has probed completed an inference within
the window before the tick read the clock. -/
def SuppressedOnEvidence (cfg : Config) (s : State) : Prop :=
  ∀ a s' t, (machine cfg).step s a = some s' → s'.ticks = s.ticks ++ [t] →
    t.outcome = .suppressed → ∃ p now c, t.probe = some p ∧ s.heartbeat = .judged p now ∧
      (p.worker, c) ∈ s.completed ∧ now < c + cfg.heartbeatFreshnessWindow

/-- An instance is forked only when the last success has aged and no tick is in flight, and only
inferences that the newest instance has just completed are stamped. -/
def NotInherited (cfg : Config) (s : State) (a : Action) : Prop :=
  cfg.heartbeatInterval = 0 ∨
    match a with
    | .fork (some _) => Aged cfg.heartbeatFreshnessWindow s ∧ s.heartbeat.probe = none
    | .stamp k => ∀ x ∈ s.unstamped[k]?, x.1 + 1 = s.forked ∧ x.2 = s.clock
    | _ => True

/-! ### The newest instance -/

variable {cfg : Config} {s s' : State} {a : Action} {C : State → Action → Prop}

/-- The watchdog holds the newest instance. -/
theorem child_newest (hs : (machine cfg).Reachable C s) :
    ∀ i, s.watchdog.child = some i → i + 1 = s.forked := by
  refine hs.invariant (P := fun s => ∀ i, s.watchdog.child = some i → i + 1 = s.forked) ?_ ?_
  · rintro _ ⟨pid, clock, -, rfl⟩ i hi
    rw [← Option.some.inj hi]
    rfl
  · intro s a s' h _ hstep i hi
    cases trans_of_step hstep with
    | launchSlot hw | launchPid hw | reap hw | clearPid hw | storePid hw | storeSlot hw | bump hw
    | started hw => exact h i (by rw [hw]; exact hi)
    | clearSlot | backedOff | forkFailed | startFailed => cases hi
    | fork =>
      obtain rfl : s.forked = i := Option.some.inj hi
      rfl
    | _ => exact h i hi

/-- A probe begins with the client of the newest instance, and it connects to no other. -/
theorem slot_newest (hs : (machine cfg).Reachable C s) {i : ℕ} (hslot : s.clientSlot = some i) :
    i + 1 = s.forked :=
  child_newest hs i (WatchdogPhase.child_of_slot
    ((bookkeeping_of_reachable hs).slot.symm.trans hslot)).1

theorem running_newest (hs : (machine cfg).Reachable C s) {i : ℕ} (hi : s.Running i = true) :
    i + 1 = s.forked := by
  rw [State.Running, Bool.and_eq_true, decide_eq_true_eq, Bool.not_eq_true'] at hi
  have howned := (bookkeeping_of_reachable hs).running i hi.1 hi.2
  exact child_newest hs i (WatchdogPhase.child_of_owned howned)

/-- Without an interval the heartbeat is off. -/
theorem heartbeat_off (hs : (machine cfg).Reachable C s) (hoff : cfg.heartbeatInterval = 0) :
    s.heartbeat = .off := by
  refine hs.invariant (P := fun s => s.heartbeat = .off) ?_ ?_
  · rintro _ ⟨pid, clock, -, rfl⟩
    rfl
  · intro s a s' h _ hstep
    cases trans_of_step hstep with
    | launchPid => exact if_pos hoff
    | skip hh | probe hh | connect hh | probeOk hh | probeFailed _ hh | judge hh | suppress hh
    | count hh | spend hh | noPid hh | loadPid hh | kill hh => cases h.symm.trans hh
    | _ => exact h

/-! ### The invariant -/

/-- The stamp of the last success is that of an inference of the newest instance. -/
def OwnSuccess (s : State) : Prop := ∃ i, i + 1 = s.forked ∧ (i, s.lastSuccess) ∈ s.completed

/-- The stamp is evidence about the newest instance unless it has aged, and a tick that is in
flight probes that instance. -/
structure Evidence (cfg : Config) (s : State) : Prop where
  last : 0 < s.lastSuccess →
    OwnSuccess s ∨ s.lastSuccess + cfg.heartbeatFreshnessWindow ≤ s.clock
  judged : ∀ p now, s.heartbeat = .judged p now → 0 < s.lastSuccess →
    OwnSuccess s ∨ s.lastSuccess + cfg.heartbeatFreshnessWindow ≤ now
  probe : ∀ p, s.heartbeat.probe = some p → p.worker + 1 = s.forked

/-- A step that neither forks nor stamps. -/
theorem Evidence.frame (h : Evidence cfg s) (hforked : s'.forked = s.forked)
    (hlast : s'.lastSuccess = s.lastSuccess) (hcompleted : s.completed ⊆ s'.completed)
    (hclock : s.clock ≤ s'.clock)
    (hjudged : ∀ p now, s'.heartbeat = .judged p now →
      s.heartbeat = .judged p now ∨ now = s.clock)
    (hprobe : ∀ p, s'.heartbeat.probe = some p →
      s.heartbeat.probe = some p ∨ p.worker + 1 = s.forked) : Evidence cfg s' := by
  have hown (ho : OwnSuccess s) : OwnSuccess s' := by
    obtain ⟨i, hi, hmem⟩ := ho
    exact ⟨i, hforked ▸ hi, hlast ▸ hcompleted hmem⟩
  refine ⟨fun hpos => ?_, fun p now hh hpos => ?_, fun p hp => ?_⟩
  · rw [hlast] at hpos ⊢
    exact (h.last hpos).imp hown fun hle => hle.trans hclock
  · rw [hlast] at hpos ⊢
    rcases hjudged p now hh with hh | rfl
    · exact (h.judged p now hh hpos).imp_left hown
    · exact (h.last hpos).imp_left hown
  · rw [hforked]
    exact (hprobe p hp).elim (h.probe p) id

/-- **Step lemma.** A step that meets the condition keeps the invariant. -/
theorem evidence_of_step (hs : (machine cfg).Reachable C s) (h : Evidence cfg s)
    (hon : cfg.heartbeatInterval ≠ 0) (hC : NotInherited cfg s a) (hstep : Trans cfg s a s') :
    Evidence cfg s' := by
  have hC := hC.resolve_left hon
  cases hstep with
  | wait d =>
    exact h.frame rfl rfl (List.Subset.refl _) (Nat.le_add_right _ _) (fun _ _ => .inl)
      fun _ => .inl
  | complete =>
    exact h.frame rfl rfl (List.subset_append_left _ _) le_rfl (fun _ _ => .inl) fun _ => .inl
  | launchPid =>
    refine h.frame rfl rfl (List.Subset.refl _) le_rfl ?_ ?_ <;> dsimp only <;> split <;> nofun
  | @fork pid hw =>
    obtain ⟨haged, hnone⟩ := hC
    refine ⟨fun hpos => .inr (haged.resolve_left hpos.ne'), fun p now hh => ?_, fun p hp => ?_⟩
    · have hp : s.heartbeat.probe = some p := by rw [show s.heartbeat = _ from hh]; rfl
      cases hnone.symm.trans hp
    · cases hnone.symm.trans hp
  | @stamp k x hx =>
    obtain ⟨hnewest, hnow⟩ := hC x hx
    have hown : (x.1, s.clock) ∈ s.completed :=
      hnow ▸ (stamped_of_reachable hs).unstamped x (List.mem_of_getElem? hx)
    exact ⟨fun _ => .inl ⟨x.1, hnewest, hown⟩, fun _ _ _ _ => .inl ⟨x.1, hnewest, hown⟩, h.probe⟩
  | @probe i hh hslot =>
    refine h.frame rfl rfl (List.Subset.refl _) le_rfl nofun fun p hp => .inr ?_
    obtain rfl : ⟨i, none⟩ = p := Option.some.inj hp
    exact slot_newest hs hslot
  | @connect client i hh hi =>
    refine h.frame rfl rfl (List.Subset.refl _) le_rfl nofun fun p hp => .inr ?_
    obtain rfl : ⟨client, some i⟩ = p := Option.some.inj hp
    exact running_newest hs hi
  | @judge p hh =>
    refine h.frame rfl rfl (List.Subset.refl _) le_rfl (fun q now hq => .inr ?_) fun q hq => .inl ?_
    · exact (HeartbeatPhase.judged.inj hq).2.symm
    · rw [hh]
      exact hq
  | probeFailed _ hh | spend hh | loadPid hh =>
    refine h.frame rfl rfl (List.Subset.refl _) le_rfl nofun fun q hq => .inl ?_
    rw [hh]
    exact hq
  | skip | probeOk | suppress | count | noPid | kill =>
    exact h.frame rfl rfl (List.Subset.refl _) le_rfl nofun nofun
  | _ => exact h.frame rfl rfl (List.Subset.refl _) le_rfl (fun _ _ => .inl) fun _ => .inl

/-- **Run lemma.** The invariant holds in the runs that meet the condition. -/
theorem evidence_of_reachable (hon : cfg.heartbeatInterval ≠ 0)
    (hs : (machine cfg).Reachable (NotInherited cfg) s) : Evidence cfg s := by
  refine hs.invariant_of_reachable ?_ fun _ _ _ hreach h hC hstep =>
    evidence_of_step hreach h hon hC (trans_of_step hstep)
  rintro _ ⟨pid, clock, -, rfl⟩
  exact ⟨nofun, nofun, nofun⟩

theorem suppressedOnEvidence_of_reachable (hs : (machine cfg).Reachable (NotInherited cfg) s) :
    SuppressedOnEvidence cfg s := by
  intro a s' t hstep hticks houtcome
  obtain ⟨p, now, hh, hp, hlast, hfresh⟩ :=
    judged_of_suppressed (trans_of_step hstep) hticks houtcome
  by_cases hon : cfg.heartbeatInterval = 0
  · cases hh.symm.trans (heartbeat_off hs hon)
  · have h := evidence_of_reachable hon hs
    obtain ⟨i, hi, hmem⟩ := (h.judged p now hh hlast).resolve_right (by omega)
    have hworker : p.worker + 1 = s.forked := h.probe p (by rw [hh]; rfl)
    obtain rfl : p.worker = i := Nat.succ.inj (hworker.trans hi.symm)
    exact ⟨p, now, s.lastSuccess, hp, hh, hmem, by omega⟩

/-! ### An inherited success -/

theorem completed_lt (hs : (machine cfg).Reachable C s) : ∀ x ∈ s.completed, x.1 < s.forked := by
  refine hs.invariant (P := fun s => ∀ x ∈ s.completed, x.1 < s.forked) ?_ ?_
  · rintro _ ⟨pid, clock, -, rfl⟩
    exact nofun
  · intro s a s' h _ hstep x hx
    cases trans_of_step hstep with
    | complete hi =>
      rcases List.mem_append.1 hx with hx | hx
      · exact h x hx
      · rw [List.mem_singleton.1 hx]
        exact of_decide_eq_true (Bool.and_eq_true _ _ ▸ hi).1
    | fork => exact Nat.lt_succ_of_lt (h x hx)
    | _ => exact h x hx

theorem lastSuccess_le_clock (hs : (machine cfg).Reachable C s) : s.lastSuccess ≤ s.clock := by
  refine hs.invariant (P := fun s => s.lastSuccess ≤ s.clock) ?_ ?_
  · rintro _ ⟨pid, clock, -, rfl⟩
    exact Nat.zero_le _
  · intro s a s' h _ hstep
    cases trans_of_step hstep with
    | wait => exact h.trans (Nat.le_add_right _ _)
    | stamp => exact Nat.le_refl _
    | _ => exact h

/-- A tick that is about to forgive an instance without a recent inference. -/
theorem not_suppressedOnEvidence {p : Probe} {now : ℕ} (hh : s.heartbeat = .judged p now)
    (hlast : 0 < s.lastSuccess) (hfresh : now - s.lastSuccess < cfg.heartbeatFreshnessWindow)
    (hnone : ∀ c, (p.worker, c) ∈ s.completed → c + cfg.heartbeatFreshnessWindow ≤ now) :
    ¬ SuppressedOnEvidence cfg s := by
  intro h
  have hstep : (machine cfg).step s .heartbeat = some (s.endTick .suppressed (some p)) := by
    simp only [machine, step, heartbeatStep, hh]
    exact if_pos ⟨hlast, hfresh⟩
  obtain ⟨q, now', c, -, hh', hmem, hlt⟩ := h _ _ _ hstep rfl rfl
  obtain ⟨rfl, rfl⟩ := HeartbeatPhase.judged.inj (hh.symm.trans hh')
  have hle := hnone c hmem
  omega

/-- An instance that is forked while the stamp is fresh starts, fails a probe at once, and is about
to be forgiven. -/
theorem inherited_of_fork {pid : ℕ} (hs : (machine cfg).Reachable C s)
    (hw : s.watchdog = .spawning) (hh : s.heartbeat = .sleeping)
    (hfresh : ¬ Aged cfg.heartbeatFreshnessWindow s) (hpid : pid ≠ 0)
    (hfree : s.holder pid = none) :
    ∃ as s', (machine cfg).Path (fun _ _ => True) s (.fork (some pid) :: as) s' ∧
      ¬ SuppressedOnEvidence cfg s' := by
  let s' : State := { s.fork pid with
    currentPid := pid
    clientSlot := some s.forked
    restartCount := s.restartCount + 1
    backoff := initialBackoff
    failures := 0
    watchdog := .waiting s.forked
    heartbeat := .judged ⟨s.forked, none⟩ s.clock }
  have hrun : (machine cfg).runUnder (fun _ _ => True) s
      (.fork (some pid) :: [.started true, .watchdog, .watchdog, .watchdog, .heartbeat,
        .probed .timeout, .heartbeat]) = some s' := by
    simp [Machine.runUnder, machine, step, watchdogStep, heartbeatStep, hw, hh, hpid, hfree,
      State.fork, s']
  refine ⟨_, s', .of_runUnder hrun, ?_⟩
  rw [Aged, not_or, Nat.not_le] at hfresh
  refine not_suppressedOnEvidence rfl (Nat.pos_of_ne_zero hfresh.1) ?_ fun c hc => ?_
  · have hle := lastSuccess_le_clock hs
    show s.clock - s.lastSuccess < _
    omega
  · exact absurd (completed_lt hs _ hc) (Nat.lt_irrefl _)

/-- A dispatch that stamps the success of an earlier instance forgives the newest one, unless that
has itself completed an inference within the window. -/
theorem inherited_of_stamp {k i : ℕ} {x : ℕ × ℕ} (hx : s.unstamped[k]? = some x)
    (hslot : s.clientSlot = some i) (hh : s.heartbeat = .sleeping) (hclock : 0 < s.clock)
    (hwindow : 0 < cfg.heartbeatFreshnessWindow)
    (hnone : ∀ c, (i, c) ∈ s.completed → c + cfg.heartbeatFreshnessWindow ≤ s.clock) :
    ∃ as s', (machine cfg).Path (fun _ _ => True) s (.stamp k :: as) s' ∧
      ¬ SuppressedOnEvidence cfg s' := by
  let s' : State := { s with
    lastSuccess := s.clock
    unstamped := s.unstamped.eraseIdx k
    stamps := s.stamps ++ [(x, s.clock)]
    heartbeat := .judged ⟨i, none⟩ s.clock }
  have hrun : (machine cfg).runUnder (fun _ _ => True) s
      (.stamp k :: [.heartbeat, .probed .timeout, .heartbeat]) = some s' := by
    simp [Machine.runUnder, machine, step, heartbeatStep, hx, hh, hslot, s']
  refine ⟨_, s', .of_runUnder hrun, not_suppressedOnEvidence rfl hclock ?_ hnone⟩
  show s.clock - s.clock < _
  omega

/-! ### When suppression is evidence -/

/-- **Freshness.** In every run that meets the condition, a suppressed tick has probed an instance
that completed an inference within the window. A fork while the stamp is fresh can lead to a
suppressed tick of an instance that completed nothing, and so can a late stamp. -/
theorem suppressedOnEvidence_of_notInherited (cfg : Config) :
    (∀ s, (machine cfg).Reachable (NotInherited cfg) s → SuppressedOnEvidence cfg s) ∧
    (∀ s pid, (machine cfg).Reachable (fun _ _ => True) s → s.watchdog = .spawning →
      s.heartbeat = .sleeping → ¬ Aged cfg.heartbeatFreshnessWindow s → pid ≠ 0 →
      s.holder pid = none →
        ∃ as s', (machine cfg).Path (fun _ _ => True) s (.fork (some pid) :: as) s' ∧
          ¬ SuppressedOnEvidence cfg s') ∧
    ∀ s k x i, (machine cfg).Reachable (fun _ _ => True) s → s.unstamped[k]? = some x →
      s.clientSlot = some i → s.heartbeat = .sleeping → 0 < s.clock →
      0 < cfg.heartbeatFreshnessWindow →
      (∀ c, (i, c) ∈ s.completed → c + cfg.heartbeatFreshnessWindow ≤ s.clock) →
        ∃ as s', (machine cfg).Path (fun _ _ => True) s (.stamp k :: as) s' ∧
          ¬ SuppressedOnEvidence cfg s' := by
  refine ⟨fun s => suppressedOnEvidence_of_reachable, fun s pid => inherited_of_fork, ?_⟩
  exact fun s k x i _ => inherited_of_stamp

instance (cfg : Config) (s : State) (a : Action) : Decidable (NotInherited cfg s a) := by
  unfold NotInherited Aged
  split <;> exact inferInstance

/-- A worker that has just completed an inference is forgiven, and one that is forked when this
success has aged is not. -/
theorem suppressedOnEvidence_of_notInherited_aged :
    ∃ s, (machine defaultConfig).Reachable (NotInherited defaultConfig) s ∧
      s.ticks.map Tick.outcome = [.suppressed, .failed] ∧
      SuppressedOnEvidence defaultConfig s := by
  obtain ⟨s, hs, hticks⟩ :
      ∃ s ∈ (machine defaultConfig).runUnder (NotInherited defaultConfig)
          { State.launched 7 with clock := 1000 }
        [.watchdog, .watchdog, .complete 0, .stamp 0, .wait 40000,
          .heartbeat, .connect 0, .probed .timeout, .heartbeat, .heartbeat,
          .exit 0, .watchdog, .watchdog, .watchdog, .wait 60000, .watchdog,
          .fork (some 8), .started true, .watchdog, .watchdog, .watchdog,
          .heartbeat, .connect 1, .probed .timeout, .heartbeat, .heartbeat],
        s.ticks.map Tick.outcome = [.suppressed, .failed] := by
    decide
  have hreach : (machine defaultConfig).Reachable (NotInherited defaultConfig) s :=
    .of_runUnder ⟨7, 1000, by decide, rfl⟩ hs
  exact ⟨s, hreach, hticks, (suppressedOnEvidence_of_notInherited defaultConfig).1 s hreach⟩

/-- A worker completes an inference and exits, and is respawned two seconds later. The first failed
probe of the new worker is forgiven. -/
theorem suppressed_after_respawn :
    ¬ ∀ s, (machine defaultConfig).Reachable (fun _ _ => True) s →
      SuppressedOnEvidence defaultConfig s := by
  intro h
  obtain ⟨s, hs, hw, hh, hlast, hfresh, hfree⟩ :
      ∃ s ∈ (machine defaultConfig).runUnder (fun _ _ => True)
          { State.launched 7 with clock := 1000 }
        [.watchdog, .watchdog, .complete 0, .stamp 0,
          .exit 0, .watchdog, .watchdog, .watchdog, .wait 2000, .watchdog],
        s.watchdog = .spawning ∧ s.heartbeat = .sleeping ∧ s.lastSuccess ≠ 0 ∧
          s.clock < s.lastSuccess + defaultConfig.heartbeatFreshnessWindow ∧
          s.holder 8 = none := by
    decide
  have hreach : (machine defaultConfig).Reachable (fun _ _ => True) s :=
    .of_runUnder ⟨7, 1000, by decide, rfl⟩ hs
  have haged : ¬ Aged defaultConfig.heartbeatFreshnessWindow s := by
    rw [Aged, not_or, Nat.not_le]
    exact ⟨hlast, hfresh⟩
  obtain ⟨as, s', hp, hbreak⟩ := inherited_of_fork hreach hw hh haged (by decide) hfree
  exact hbreak (h s' (hreach.path hp))

end OxEmbed.Supervisor

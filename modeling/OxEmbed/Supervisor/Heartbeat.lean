import OxEmbed.Supervisor.Bookkeeping

/-!
# Which worker the heartbeat kills

The heartbeat counts failed probes in a local variable, reads the pid after a probe that may have
lasted long, and runs beside a watchdog that replaces the worker at any moment. It kills only the
worker that failed as long as the exit of a worker does not overtake a tick: as long as no respawn
meets a counter that is not zero, no failed probe of an old worker is counted against a new one,
and the pid belongs to the watched worker from its load to the signal.

## Main definitions

* `Probe.SentTo` : a probe was sent to an instance.
* `KillsTheFailed` : every kill hits the unreaped instance that failed all counted probes, and the
  failures counted while an instance is in the client slot are its own.
* `NotOvertaken` : the condition on the steps.
* `HeartbeatInv` : the invariant.
* `AboutToErr` : the next step of the heartbeat sends a signal to the wrong process.

## Main results

* `heartbeatInv_of_reachable` : the invariant of the runs that meet the condition.
* `killsTheFailed_iff_notOvertaken` : a run that meets the condition kills only failed workers, and
  a step that does not meet it breaks this at once or when the heartbeat makes its next step.
* `not_killsTheFailed_respawn` : a run that kills a respawned worker for its predecessor's failures.
-/

namespace OxEmbed.Supervisor

/-! ### The property and the condition -/

/-- A probe was sent to the instance `i`: through its client, and to no other instance. -/
def Probe.SentTo (p : Probe) (i : ℕ) : Prop :=
  p.client = i ∧ (p.reached = none ∨ p.reached = some i)

/-- The heartbeat kills only the worker that failed. -/
structure KillsTheFailed (cfg : Config) (s : State) : Prop where
  /-- A signal goes to an instance that is not reaped and that failed as many probes in a row as
  are allowed. -/
  kills : ∀ k ∈ s.kills, ∃ i, k.target = some i ∧ k.counted.length = cfg.heartbeatMaxFails ∧
    ∀ p ∈ k.counted, p.SentTo i
  /-- The failures counted while an instance is in the client slot are its own, so an instance
  starts with none. -/
  fresh : s.consecutiveFails = s.counted.length ∧
    ∀ i, s.clientSlot = some i → ∀ p ∈ s.counted, p.SentTo i

namespace HeartbeatPhase

/-- The probe of the tick. -/
def probe : HeartbeatPhase → Option Probe
  | .probing p | .judging p | .judged p _ | .loadPid p | .killing p _ => some p
  | .off | .sleeping => none

/-- The pid was loaded and the signal not sent. -/
def Killing : HeartbeatPhase → Bool
  | .killing _ _ => true
  | _ => false

/-- The fails are used up. -/
def Spent : HeartbeatPhase → Bool
  | .loadPid _ | .killing _ _ => true
  | _ => false

end HeartbeatPhase

namespace WatchdogPhase

/-- The stored pid and the client slot do not belong to one unreaped instance. -/
def PidStale : WatchdogPhase → Bool
  | .clearPid _ | .storeSlot _ => true
  | _ => false

/-- The new instance of a respawn, before its client is stored. -/
def next : WatchdogPhase → Option ℕ
  | .starting i | .storePid i | .storeSlot i => some i
  | _ => none

end WatchdogPhase

/-- The watchdog does not overtake the heartbeat: it reaps no worker between the load of its pid
and the signal, and it stores a new client only while no failure is counted; the heartbeat loads
no pid between the stores of the watchdog, and counts no failed probe of an instance while the
client of another one is stored. -/
def NotOvertaken (cfg : Config) (s : State) : Action → Prop
  | .watchdog =>
    match s.watchdog with
    | .waiting _ => s.heartbeat.Killing = false
    | .storeSlot _ => s.consecutiveFails = 0
    | _ => True
  | .heartbeat =>
    match s.heartbeat with
    | .judged p now =>
      (0 < s.lastSuccess ∧ now - s.lastSuccess < cfg.heartbeatFreshnessWindow) ∨
        s.clientSlot = none ∨ s.clientSlot = some p.client
    | .loadPid _ => s.watchdog.PidStale = false
    | _ => True
  | _ => True

/-! ### The invariant -/

/-- The invariant of the runs that meet the condition. -/
structure HeartbeatInv (cfg : Config) (s : State) : Prop where
  counter : s.consecutiveFails = s.counted.length
  off : s.heartbeat = .off → s.counted = []
  own : ∀ i, s.clientSlot = some i → ∀ p ∈ s.counted, p.SentTo i
  /-- The probe of the tick reaches the instance of its client while this is in the slot. -/
  flight : ∀ p, s.heartbeat.probe = some p → s.clientSlot = some p.client → p.SentTo p.client
  /-- The probes are older than a respawn that is not complete. -/
  older : ∀ p, s.heartbeat.probe = some p ∨ p ∈ s.counted →
    p.client < s.forked ∧ ∀ i, s.watchdog.next = some i → p.client < i
  spent : s.heartbeat.Spent = true → s.counted.length = cfg.heartbeatMaxFails
  unspent : s.heartbeat.Spent = false → s.counted.length < cfg.heartbeatMaxFails
  /-- From the load of the pid to the signal it belongs to the watched instance. -/
  killing : ∀ p pid, s.heartbeat = .killing p pid →
    ∃ i, s.watchdog.slot = some i ∧ s.watchdog.owned = some i ∧ pid = (s.instances i).pid
  kills : ∀ k ∈ s.kills, ∃ i, k.target = some i ∧ k.counted.length = cfg.heartbeatMaxFails ∧
    ∀ p ∈ k.counted, p.SentTo i

variable {cfg : Config} {s s' : State} {i : ℕ} {a : Action} {C : State → Action → Prop}

theorem WatchdogPhase.owned_eq_slot {w : WatchdogPhase} {i j : ℕ} (hslot : w.slot = some i)
    (howned : w.owned = some j) : j = i := by
  cases w <;> cases hslot <;> cases howned <;> rfl

theorem WatchdogPhase.child_of_slot {w : WatchdogPhase} {i : ℕ} (h : w.slot = some i) :
    w.child = some i ∧ w.next = none := by
  cases w <;> cases h <;> exact ⟨rfl, rfl⟩

theorem WatchdogPhase.slot_of_stored {w : WatchdogPhase} {i : ℕ} (h : w.stored = some i)
    (hw : w.PidStale = false) : w.slot = some i ∧ w.owned = some i := by
  cases w <;> cases h <;> first | exact ⟨rfl, rfl⟩ | cases hw

/-- A step that is not one of the heartbeat and stores no client keeps the invariant. -/
theorem HeartbeatInv.frame (h : HeartbeatInv cfg s)
    (hfails : s'.consecutiveFails = s.consecutiveFails)
    (hcounted : s'.counted = s.counted) (hkills : s'.kills = s.kills)
    (hheartbeat : s'.heartbeat = s.heartbeat)
    (hslot : s'.clientSlot = s.clientSlot ∨ s'.clientSlot = none)
    (hforked : s.forked ≤ s'.forked)
    (hnext : ∀ i, s'.watchdog.next = some i → s.watchdog.next = some i ∨ s.forked ≤ i)
    (hkilling : ∀ i, s.heartbeat.Killing = true → s.watchdog.slot = some i →
      s.watchdog.owned = some i → s'.watchdog.slot = some i ∧ s'.watchdog.owned = some i ∧
        (s'.instances i).pid = (s.instances i).pid) :
    HeartbeatInv cfg s' where
  counter := by rw [hfails, hcounted, h.counter]
  off := by
    rw [hheartbeat, hcounted]
    exact h.off
  own i hi := by
    rw [hcounted]
    rcases hslot with hslot | hslot
    · exact h.own i (hslot ▸ hi)
    · rw [hslot] at hi
      cases hi
  flight p hp hi := by
    rw [hheartbeat] at hp
    rcases hslot with hslot | hslot
    · exact h.flight p hp (hslot ▸ hi)
    · rw [hslot] at hi
      cases hi
  older p hp := by
    rw [hheartbeat, hcounted] at hp
    obtain ⟨hlt, hold⟩ := h.older p hp
    refine ⟨Nat.lt_of_lt_of_le hlt hforked, fun i hi => ?_⟩
    rcases hnext i hi with hi | hi
    · exact hold i hi
    · exact Nat.lt_of_lt_of_le hlt hi
  spent := by
    rw [hheartbeat, hcounted]
    exact h.spent
  unspent := by
    rw [hheartbeat, hcounted]
    exact h.unspent
  killing p pid hp := by
    rw [hheartbeat] at hp
    obtain ⟨i, hi, howned, rfl⟩ := h.killing p pid hp
    obtain ⟨hi', howned', hpid⟩ := hkilling i (by rw [hp]; rfl) hi howned
    exact ⟨i, hi', howned', hpid.symm⟩
  kills := by
    rw [hkills]
    exact h.kills

/-- The end of a tick that resets the counter keeps the invariant. -/
theorem HeartbeatInv.resetFails (h : HeartbeatInv cfg s) (outcome : HeartbeatOutcome)
    (probe : Option Probe) : HeartbeatInv cfg (s.resetFails.endTick outcome probe) where
  counter := rfl
  off _ := rfl
  own := nofun
  flight := nofun
  older := nofun
  spent := nofun
  unspent _ := cfg.maxFails_pos
  killing := nofun
  kills := h.kills

/-- A step within a tick keeps the invariant. -/
theorem HeartbeatInv.setHeartbeat (h : HeartbeatInv cfg s) {w : HeartbeatPhase}
    (hoff : w ≠ .off) (hspent : w.Spent = s.heartbeat.Spent)
    (hprobe : ∀ p, w.probe = some p →
      (p.client < s.forked ∧ ∀ i, s.watchdog.next = some i → p.client < i) ∧
        (s.clientSlot = some p.client → p.SentTo p.client))
    (hkilling : ∀ p pid, w = .killing p pid →
      ∃ i, s.watchdog.slot = some i ∧ s.watchdog.owned = some i ∧ pid = (s.instances i).pid) :
    HeartbeatInv cfg { s with heartbeat := w } where
  counter := h.counter
  off hw := absurd hw hoff
  own := h.own
  flight p hp := (hprobe p hp).2
  older p hp := hp.elim (fun hp => (hprobe p hp).1) fun hp => h.older p (.inr hp)
  spent hw := h.spent (hspent ▸ hw)
  unspent hw := h.unspent (hspent ▸ hw)
  killing := hkilling
  kills := h.kills

/-- The probe of the tick is not that of another worker. -/
theorem HeartbeatInv.probe_ok (h : HeartbeatInv cfg s) {w w' : HeartbeatPhase}
    (hh : s.heartbeat = w) (hw : w'.probe = w.probe) (p : Probe) (hp : w'.probe = some p) :
    (p.client < s.forked ∧ ∀ i, s.watchdog.next = some i → p.client < i) ∧
      (s.clientSlot = some p.client → p.SentTo p.client) := by
  have hprobe : s.heartbeat.probe = some p := by rw [hh, ← hw, hp]
  exact ⟨h.older p (.inl hprobe), h.flight p hprobe⟩

/-- A failed probe that was sent to the watched instance, or while none is watched, is counted. -/
theorem HeartbeatInv.countFail (h : HeartbeatInv cfg s) {p : Probe} {now : ℕ}
    (hh : s.heartbeat = .judged p now) (hslot : s.clientSlot = none ∨ s.clientSlot = some p.client)
    {w : HeartbeatPhase} {ticks : List Tick} (hoff : w ≠ .off)
    (hprobe : w.probe = none ∨ w.probe = some p) (hkilling : w.Killing = false)
    (hspent : w.Spent = true → cfg.heartbeatMaxFails ≤ s.consecutiveFails + 1)
    (hunspent : w.Spent = false → s.consecutiveFails + 1 < cfg.heartbeatMaxFails) :
    HeartbeatInv cfg { s.countFail p with heartbeat := w, ticks } := by
  have hp : s.heartbeat.probe = some p := by rw [hh]; rfl
  have hlt := h.unspent (by rw [hh]; rfl)
  have hcounter := h.counter
  have hlength : (s.counted ++ [p]).length = s.consecutiveFails + 1 := by
    rw [List.length_append, ← hcounter]
    rfl
  have hsame (q : Probe) (hq : w.probe = some q) : p = q := by
    rcases hprobe with hnone | hsome
    · cases hnone.symm.trans hq
    · exact Option.some.inj (hsome.symm.trans hq)
  refine ⟨hlength.symm, fun hw => absurd hw hoff, fun i hi q hq => ?_, fun q hq hi => ?_,
    fun q hq => ?_, fun hw => ?_, fun hw => ?_, fun q pid hw => ?_, h.kills⟩
  · rcases List.mem_append.mp hq with hq | hq
    · exact h.own i hi q hq
    · rw [List.mem_singleton.mp hq]
      rcases hslot with hslot | hslot
      · cases hslot.symm.trans hi
      · obtain rfl := Option.some.inj (hslot.symm.trans hi)
        exact h.flight p hp hslot
  · obtain rfl := hsame q hq
    exact h.flight p hp hi
  · rcases hq with hq | hq
    · obtain rfl := hsame q hq
      exact h.older p (.inl hp)
    · rcases List.mem_append.mp hq with hq | hq
      · exact h.older q (.inr hq)
      · rw [List.mem_singleton.mp hq]
        exact h.older p (.inl hp)
  · have hmax := hspent hw
    show (s.counted ++ [p]).length = _
    omega
  · have hmore := hunspent hw
    show (s.counted ++ [p]).length < _
    omega
  · have hw' : w = .killing q pid := hw
    rw [hw'] at hkilling
    cases hkilling

/-- Before the heartbeat has started nothing is counted. -/
theorem HeartbeatInv.launch (h : HeartbeatInv cfg s) (hoff : s.heartbeat = .off)
    (hfails : s'.consecutiveFails = s.consecutiveFails) (hcounted : s'.counted = s.counted)
    (hkills : s'.kills = s.kills) (hheartbeat : s'.heartbeat = .off ∨ s'.heartbeat = .sleeping) :
    HeartbeatInv cfg s' := by
  have hnil : s'.counted = [] := hcounted.trans (h.off hoff)
  have hprobe : s'.heartbeat.probe = none := by rcases hheartbeat with hh | hh <;> rw [hh] <;> rfl
  have hspent : s'.heartbeat.Spent = false := by
    rcases hheartbeat with hh | hh <;> rw [hh] <;> rfl
  refine ⟨by rw [hfails, hcounted, h.counter], fun _ => hnil, fun i _ p hp => ?_, fun p hp => ?_,
    fun p hp => ?_, fun hw => ?_, fun _ => ?_, fun p pid hw => ?_, hkills ▸ h.kills⟩
  · rw [hnil] at hp
    cases hp
  · cases hprobe.symm.trans hp
  · rw [hprobe, hnil] at hp
    rcases hp with hp | hp <;> cases hp
  · cases hspent.symm.trans hw
  · rw [hnil]
    exact cfg.maxFails_pos
  · rw [hw] at hspent
    cases hspent

/-- A respawned instance starts with nothing counted. -/
theorem HeartbeatInv.storeSlot (h : HeartbeatInv cfg s) (hw : s.watchdog = .storeSlot i)
    (hfails : s.consecutiveFails = 0) :
    HeartbeatInv cfg { s with clientSlot := some i, watchdog := .bump i } := by
  have hnil : s.counted = [] := List.length_eq_zero_iff.mp (h.counter.symm.trans hfails)
  refine ⟨h.counter, h.off, fun j _ p hp => ?_, fun p hp hj => ?_, fun p hp => ?_, h.spent,
    h.unspent, fun p pid hp => ?_, h.kills⟩
  · have hp' : p ∈ s.counted := hp
    rw [hnil] at hp'
    cases hp'
  · have hlt := (h.older p (.inl hp)).2 i (by rw [hw]; rfl)
    obtain rfl : i = p.client := Option.some.inj hj
    exact absurd hlt (Nat.lt_irrefl _)
  · exact ⟨(h.older p hp).1, nofun⟩
  · obtain ⟨j, hj, -, -⟩ := h.killing p pid hp
    rw [hw] at hj
    cases hj

/-- A probe starts with the client of the watched instance. -/
theorem HeartbeatInv.beginProbe (h : HeartbeatInv cfg s) (hb : Bookkeeping s)
    (hh : s.heartbeat = .sleeping) (hslot : s.clientSlot = some i) :
    HeartbeatInv cfg { s with heartbeat := .probing ⟨i, none⟩ } := by
  refine h.setHeartbeat nofun (by rw [hh]; rfl) (fun p hp => ?_) nofun
  obtain rfl : ⟨i, none⟩ = p := Option.some.inj hp
  obtain ⟨hchild, hnext⟩ := WatchdogPhase.child_of_slot (hb.slot.symm.trans hslot)
  refine ⟨⟨hb.child i hchild, fun j hj => ?_⟩, fun _ => ⟨rfl, .inl rfl⟩⟩
  cases hnext.symm.trans hj

/-- A probe reaches the running instance, which is that of its client while this is in the slot. -/
theorem HeartbeatInv.connect (h : HeartbeatInv cfg s) (hb : Bookkeeping s) {client : ℕ}
    (hh : s.heartbeat = .probing ⟨client, none⟩) (hi : s.Running i = true) :
    HeartbeatInv cfg { s with heartbeat := .probing ⟨client, some i⟩ } := by
  refine h.setHeartbeat nofun (by rw [hh]; rfl) (fun p hp => ?_) nofun
  obtain rfl : ⟨client, some i⟩ = p := Option.some.inj hp
  refine ⟨h.older ⟨client, none⟩ (.inl (by rw [hh]; rfl)), fun hslot => ⟨rfl, .inr ?_⟩⟩
  rw [State.Running, Bool.and_eq_true, decide_eq_true_eq, Bool.not_eq_true'] at hi
  have howned := hb.running i hi.1 hi.2
  exact congrArg some (WatchdogPhase.owned_eq_slot (hb.slot.symm.trans hslot) howned)

/-- A pid loaded away from the stores of the watchdog is that of the watched instance. -/
theorem HeartbeatInv.loadPid (h : HeartbeatInv cfg s) (hb : Bookkeeping s) {p : Probe}
    (hh : s.heartbeat = .loadPid p) (hpid : s.currentPid ≠ 0)
    (hstale : s.watchdog.PidStale = false) :
    HeartbeatInv cfg { s with heartbeat := .killing p s.currentPid } := by
  refine h.setHeartbeat nofun (by rw [hh]; rfl) (h.probe_ok hh rfl) fun q pid hq => ?_
  obtain ⟨rfl, rfl⟩ := HeartbeatPhase.killing.inj hq
  cases hstored : s.watchdog.stored with
  | none =>
    have hzero := hb.pid
    rw [hstored] at hzero
    exact absurd hzero hpid
  | some i =>
    obtain ⟨hslot, howned⟩ := WatchdogPhase.slot_of_stored hstored hstale
    refine ⟨i, hslot, howned, ?_⟩
    rw [hb.pid, hstored]
    rfl

/-- The signal goes to the watched instance, which failed all counted probes. -/
theorem HeartbeatInv.kill (h : HeartbeatInv cfg s) (hb : Bookkeeping s) {p : Probe} {pid : ℕ}
    (hh : s.heartbeat = .killing p pid) :
    HeartbeatInv cfg ((s.kill pid).resetFails.endTick .killed (some p)) := by
  obtain ⟨i, hslot, howned, rfl⟩ := h.killing p pid hh
  refine ⟨rfl, fun _ => rfl, nofun, nofun, nofun, nofun, fun _ => cfg.maxFails_pos, nofun,
    fun k hk => ?_⟩
  rcases List.mem_append.mp hk with hk | hk
  · exact h.kills k hk
  · rw [List.mem_singleton.mp hk]
    have hchild := (WatchdogPhase.child_of_slot hslot).1
    exact ⟨i, holder_eq_some hb.processes (hb.child i hchild) (hb.owned i howned),
      h.spent (by rw [hh]; rfl), h.own i (hb.slot.trans hslot)⟩

/-- **Step lemma.** A step that meets the condition keeps the invariant. -/
theorem heartbeatInv_of_step (hb : Bookkeeping s) (h : HeartbeatInv cfg s)
    (hC : NotOvertaken cfg s a) (hstep : Trans cfg s a s') : HeartbeatInv cfg s' := by
  -- a signal is on its way only while the watchdog waits for the worker or completes a respawn
  have hnot {w : WatchdogPhase} (hw : s.watchdog = w) (hnone : w.slot = none ∨ w.owned = none)
      (i : ℕ) (hslot : s.watchdog.slot = some i) (howned : s.watchdog.owned = some i) : False := by
    subst hw
    rcases hnone with hnone | hnone
    · cases hnone.symm.trans hslot
    · cases hnone.symm.trans howned
  cases hstep with
  | wait | complete | stamp =>
    exact h.frame rfl rfl rfl rfl (.inl rfl) (Nat.le_refl _) (fun _ => .inl)
      fun _ _ hi ho => ⟨hi, ho, rfl⟩
  | exit =>
    exact h.frame rfl rfl rfl rfl (.inl rfl) (Nat.le_refl _) (fun _ => .inl)
      fun j _ hi ho => ⟨hi, ho, (exits_exit s _).pid j⟩
  | reapOrphan =>
    exact h.frame rfl rfl rfl rfl (.inl rfl) (Nat.le_refl _) (fun _ => .inl)
      fun j _ hi ho => ⟨hi, ho, reap_pid s _ j⟩
  | @launchSlot i hw =>
    have hoff := hb.launching (by rw [hw]; rfl)
    exact h.launch hoff rfl rfl rfl (.inl hoff)
  | @launchPid i hw =>
    refine h.launch (hb.launching (by rw [hw]; rfl)) rfl rfl rfl ?_
    show (if cfg.heartbeatInterval = 0 then HeartbeatPhase.off else .sleeping) = .off ∨ _
    split
    · exact .inl rfl
    · exact .inr rfl
  | @reap i hw hexited =>
    rw [NotOvertaken, hw] at hC
    exact h.frame rfl rfl rfl rfl (.inl rfl) (Nat.le_refl _) nofun
      fun j hkilling _ _ => nomatch hC.symm.trans hkilling
  | @clearPid i hw =>
    exact h.frame rfl rfl rfl rfl (.inl rfl) (Nat.le_refl _) nofun
      fun j _ hi ho => (hnot hw (.inr rfl) j hi ho).elim
  | @clearSlot i hw =>
    exact h.frame rfl rfl rfl rfl (.inr rfl) (Nat.le_refl _) nofun
      fun j _ hi ho => (hnot hw (.inr rfl) j hi ho).elim
  | backedOff hw | forkFailed hw =>
    exact h.frame rfl rfl rfl rfl (.inl rfl) (Nat.le_refl _) nofun
      fun j _ hi ho => (hnot hw (.inl rfl) j hi ho).elim
  | @storePid i hw =>
    refine h.frame rfl rfl rfl rfl (.inl rfl) (Nat.le_refl _) (fun j hj => .inl ?_)
      fun j _ hi ho => (hnot hw (.inl rfl) j hi ho).elim
    rw [hw]
    exact hj
  | @storeSlot i hw =>
    rw [NotOvertaken, hw] at hC
    exact h.storeSlot hw hC
  | @bump i hw =>
    refine h.frame rfl rfl rfl rfl (.inl rfl) (Nat.le_refl _) nofun fun j _ hi ho => ?_
    rw [hw] at hi ho
    exact ⟨hi, ho, rfl⟩
  | @fork pid hw =>
    refine h.frame rfl rfl rfl rfl (.inl rfl) (Nat.le_succ _) (fun j hj => .inr ?_)
      fun j _ hi ho => (hnot hw (.inl rfl) j hi ho).elim
    obtain rfl : s.forked = j := Option.some.inj hj
    exact Nat.le_refl _
  | @started i hw =>
    refine h.frame rfl rfl rfl rfl (.inl rfl) (Nat.le_refl _) (fun j hj => .inl ?_)
      fun j _ hi ho => (hnot hw (.inl rfl) j hi ho).elim
    rw [hw]
    exact hj
  | @startFailed i hw =>
    exact h.frame rfl rfl rfl rfl (.inl rfl) (Nat.le_refl _) nofun
      fun j _ hi ho => (hnot hw (.inl rfl) j hi ho).elim
  | skip => exact h.resetFails .skipped none
  | @probe i hh hslot => exact h.beginProbe hb hh hslot
  | @connect client i hh hi => exact h.connect hb hh hi
  | @probeOk p hh => exact h.resetFails .ok (some p)
  | @probeFailed p r hr hh =>
    exact h.setHeartbeat nofun (by rw [hh]; rfl) (h.probe_ok hh rfl) nofun
  | @judge p hh => exact h.setHeartbeat nofun (by rw [hh]; rfl) (h.probe_ok hh rfl) nofun
  | @suppress p now hh =>
    have hinv : HeartbeatInv cfg { s with heartbeat := .sleeping } :=
      h.setHeartbeat nofun (by rw [hh]; rfl) nofun nofun
    exact ⟨hinv.counter, nofun, hinv.own, nofun, hinv.older, nofun, hinv.unspent, nofun, h.kills⟩
  | @count p now hh hstale hmore =>
    rw [NotOvertaken, hh] at hC
    exact h.countFail hh (hC.resolve_left hstale) nofun (.inl rfl) rfl nofun fun _ => hmore
  | @spend p now hh hstale hmax =>
    rw [NotOvertaken, hh] at hC
    exact h.countFail hh (hC.resolve_left hstale) nofun (.inr rfl) rfl (fun _ => hmax) nofun
  | @noPid p hh => exact h.resetFails .skipped (some p)
  | @loadPid p hh hpid =>
    rw [NotOvertaken, hh] at hC
    exact h.loadPid hb hh hpid hC
  | @kill p pid hh => exact h.kill hb hh

/-- **Run lemma.** The invariant holds in the runs that meet the condition. -/
theorem heartbeatInv_of_reachable (hs : (machine cfg).Reachable (NotOvertaken cfg) s) :
    HeartbeatInv cfg s := by
  refine hs.invariant_of_reachable ?_ fun _ _ _ hreach h hC hstep =>
    heartbeatInv_of_step (bookkeeping_of_reachable hreach) h hC (trans_of_step hstep)
  rintro _ ⟨pid, clock, -, rfl⟩
  exact ⟨rfl, fun _ => rfl, nofun, nofun, nofun, nofun, fun _ => cfg.maxFails_pos, nofun, nofun⟩

/-! ### What the heartbeat kills -/

theorem HeartbeatInv.killsTheFailed (h : HeartbeatInv cfg s) : KillsTheFailed cfg s :=
  ⟨h.kills, h.counter, h.own⟩

/-- The next step of the heartbeat sends a signal that hits the wrong process. -/
def AboutToErr (cfg : Config) (s : State) : Prop :=
  ∃ s', step cfg s .heartbeat = some s' ∧ ¬ KillsTheFailed cfg s'

/-- A signal to a pid that no unreaped instance holds is an error. -/
theorem aboutToErr_of_holder_eq_none {p : Probe} {pid : ℕ} (hh : s.heartbeat = .killing p pid)
    (hnone : s.holder pid = none) : AboutToErr cfg s := by
  refine ⟨(s.kill pid).resetFails.endTick .killed (some p), ?_, fun hkills => ?_⟩
  · rw [step, heartbeatStep, hh]
  · obtain ⟨i, htarget, -⟩ := hkills.kills ⟨pid, s.holder pid, s.counted⟩
      (List.mem_append_right _ (List.mem_singleton_self _))
    cases hnone.symm.trans htarget

/-- A signal to an instance that is younger than a counted probe is an error. -/
theorem aboutToErr_of_holder_eq_some {p q : Probe} {pid : ℕ} (hh : s.heartbeat = .killing p pid)
    (hholder : s.holder pid = some i) (hq : q ∈ s.counted) (hlt : q.client < i) :
    AboutToErr cfg s := by
  refine ⟨(s.kill pid).resetFails.endTick .killed (some p), ?_, fun hkills => ?_⟩
  · rw [step, heartbeatStep, hh]
  · obtain ⟨j, htarget, -, hsent⟩ := hkills.kills ⟨pid, s.holder pid, s.counted⟩
      (List.mem_append_right _ (List.mem_singleton_self _))
    obtain rfl := Option.some.inj (hholder.symm.trans htarget)
    exact absurd (hsent q hq).1 (Nat.ne_of_lt hlt)

/-- A failed probe that is counted while the client of another instance is stored is not that
instance's. -/
theorem not_killsTheFailed_of_count {p : Probe} (hslot : s.clientSlot ≠ none)
    (hclient : s.clientSlot ≠ some p.client) (hp : p ∈ s.counted) : ¬ KillsTheFailed cfg s := by
  intro h
  obtain ⟨i, hi⟩ := Option.ne_none_iff_exists'.mp hslot
  have hown := (h.fresh.2 i hi p hp).1
  exact hclient (hown.symm ▸ hi)

/-- A step that does not meet the condition breaks the property at once or by the next step of the
heartbeat. -/
theorem breaks_of_overtaken (hb : Bookkeeping s) (h : HeartbeatInv cfg s)
    (hC : ¬ NotOvertaken cfg s a) (hstep : Trans cfg s a s') :
    ¬ KillsTheFailed cfg s' ∨ AboutToErr cfg s' := by
  cases hstep with
  | @reap i hw hexited =>
    rw [NotOvertaken, hw] at hC
    cases hh : s.heartbeat with
    | killing p pid =>
      obtain ⟨j, hslot, -, rfl⟩ := h.killing p pid hh
      rw [hw] at hslot
      obtain rfl : i = j := Option.some.inj hslot
      obtain ⟨-, -, hchild, howned, -, -⟩ := hb.at_point hw
      refine .inr (aboutToErr_of_holder_eq_none hh ?_)
      exact holder_eq_none_iff.mpr fun j hj hr =>
        hb.processes.pid_ne_of_reap (hchild i rfl) (howned i rfl) hj hr
    | _ => exact absurd (by rw [hh]; rfl) hC
  | @storeSlot i hw =>
    rw [NotOvertaken, hw] at hC
    obtain ⟨q, hq⟩ := List.exists_mem_of_ne_nil s.counted fun hnil =>
      hC (by rw [h.counter, hnil]; rfl)
    have hlt := (h.older q (.inr hq)).2 i (by rw [hw]; rfl)
    refine .inl (not_killsTheFailed_of_count nofun (fun hi => ?_) hq)
    exact Nat.ne_of_gt hlt (Option.some.inj hi)
  | @count p now hh hstale hmore | @spend p now hh hstale hmax =>
    rw [NotOvertaken, hh] at hC
    exact .inl (not_killsTheFailed_of_count (fun hslot => hC (.inr (.inl hslot)))
      (fun hslot => hC (.inr (.inr hslot))) (List.mem_append_right _ (List.mem_singleton_self p)))
  | @loadPid p hh hpid =>
    rw [NotOvertaken, hh] at hC
    have hspent := h.spent (by rw [hh]; rfl)
    cases hw : s.watchdog with
    | clearPid i =>
      obtain ⟨-, hcurrent, -⟩ := hb.at_point hw
      refine .inr (aboutToErr_of_holder_eq_none rfl ?_)
      rw [hcurrent]
      exact holder_eq_none_iff.mpr (hb.reaped i hw)
    | storeSlot i =>
      obtain ⟨-, hcurrent, hchild, howned, -⟩ := hb.at_point hw
      obtain ⟨q, hq⟩ := List.exists_mem_of_length_pos (hspent.symm ▸ cfg.maxFails_pos)
      have hlt := (h.older q (.inr hq)).2 i (by rw [hw]; rfl)
      refine .inr (aboutToErr_of_holder_eq_some rfl ?_ hq hlt)
      rw [hcurrent]
      exact holder_eq_some ⟨hb.processes.pid_ne_zero, hb.processes.distinct⟩ (hchild i rfl)
        (howned i rfl)
    | _ => exact absurd (by rw [hw]; rfl) hC
  | suppress hh hlast hfresh =>
    rw [NotOvertaken, hh] at hC
    exact absurd (.inl ⟨hlast, hfresh⟩) hC
  | launchSlot hw | launchPid hw | clearPid hw | clearSlot hw | backedOff hw | storePid hw
  | bump hw => exact absurd (by rw [NotOvertaken, hw]; trivial) hC
  | @noPid p hh hpid =>
    rw [NotOvertaken, hh] at hC
    -- the watchdog stores no pid that is zero
    have hstored (i : ℕ) (hs : s.watchdog.stored = some i) (hi : s.watchdog.child = some i) :
        False := by
      refine hb.processes.pid_ne_zero i (hb.child i hi) ?_
      rw [← hpid, hb.pid, hs]
      rfl
    cases hw : s.watchdog with
    | clearPid i | storeSlot i => exact (hstored i (by rw [hw]; rfl) (by rw [hw]; rfl)).elim
    | _ => exact absurd (by rw [hw]; rfl) hC
  | skip hh | probe hh | judge hh | kill hh => exact absurd (by rw [NotOvertaken, hh]; trivial) hC
  | _ => exact absurd trivial hC

/-- A run whose steps all meet the condition kills only workers that failed, and every step that
does not meet it breaks this, at once or when the heartbeat makes its next step. -/
theorem killsTheFailed_iff_notOvertaken (cfg : Config) :
    (∀ s, (machine cfg).Reachable (NotOvertaken cfg) s → KillsTheFailed cfg s) ∧
      ∀ s a s', (machine cfg).Reachable (NotOvertaken cfg) s → ¬ NotOvertaken cfg s a →
        (machine cfg).step s a = some s' → ¬ KillsTheFailed cfg s' ∨ AboutToErr cfg s' := by
  constructor
  · intro s hs
    exact (heartbeatInv_of_reachable hs).killsTheFailed
  · intro s a s' hs hC hstep
    exact breaks_of_overtaken (bookkeeping_of_reachable hs) (heartbeatInv_of_reachable hs) hC
      (trans_of_step hstep)

/-- A worker fails two probes and exits; it is respawned within the sleep of the heartbeat, and one
failed probe of the new worker, while it is still loading, has it killed. -/
theorem not_killsTheFailed_respawn :
    ¬ ∀ s, (machine defaultConfig).Reachable (fun _ _ => True) s →
      KillsTheFailed defaultConfig s := by
  intro h
  obtain ⟨s, hs, hkills⟩ :
      ∃ s ∈ (machine defaultConfig).runUnder (fun _ _ => True) { State.launched 7 with clock := 1 }
        [.watchdog, .watchdog,
          .heartbeat, .connect 0, .probed .timeout, .heartbeat, .heartbeat,
          .heartbeat, .connect 0, .probed .timeout, .heartbeat, .heartbeat,
          .exit 0, .watchdog, .watchdog, .watchdog, .watchdog,
          .fork (some 8), .started true, .watchdog, .watchdog, .watchdog,
          .heartbeat, .connect 1, .probed .timeout, .heartbeat, .heartbeat, .heartbeat,
          .heartbeat],
        s.kills = [⟨8, some 1, [⟨0, some 0⟩, ⟨0, some 0⟩, ⟨1, some 1⟩]⟩] := by
    decide
  have hreach : (machine defaultConfig).Reachable (fun _ _ => True) s :=
    .of_runUnder ⟨7, 1, by decide, rfl⟩ hs
  obtain ⟨i, htarget, -, hsent⟩ := (h s hreach).kills _ (hkills ▸ List.mem_singleton_self _)
  obtain rfl : 1 = i := Option.some.inj htarget
  have hfirst := (hsent ⟨0, some 0⟩ List.mem_cons_self).1
  cases hfirst

end OxEmbed.Supervisor

import OxEmbed.Supervisor.Basic

/-!
# The bookkeeping of the watchdog

What the program point of the watchdog says of the client slot and of the stored pid, in every
run: the two fields are stored one after the other, in one order by `launch` and in the other by
the respawn path, but each of them is determined by the point between two stores at which the
watchdog is. Pids identify the instances that were not reaped.

## Main definitions

* `WatchdogPhase.slot`, `WatchdogPhase.stored`, `WatchdogPhase.owned` : the instance in the client
  slot, the one whose pid is stored, and the one that runs or was not reaped.
* `Bookkeeping` : the invariant.

## Main results

* `holder_eq_some` : an instance that was not reaped is the holder of its pid.
* `bookkeeping_of_reachable` : the invariant holds in every reachable state.
-/

namespace OxEmbed.Supervisor

namespace WatchdogPhase

/-- The instance whose client is in the client slot. -/
def slot : WatchdogPhase → Option ℕ
  | .launchPid i | .waiting i | .clearPid i | .clearSlot i | .bump i => some i
  | _ => none

/-- The instance whose pid is stored. -/
def stored : WatchdogPhase → Option ℕ
  | .waiting i | .clearPid i | .storeSlot i | .bump i => some i
  | _ => none

/-- The instance that the watchdog has forked and not reaped. -/
def owned : WatchdogPhase → Option ℕ
  | .launchSlot i | .launchPid i | .waiting i | .starting i | .storePid i | .storeSlot i
  | .bump i => some i
  | _ => none

/-- The stores of `launch`. -/
def Launching : WatchdogPhase → Bool
  | .launchSlot _ | .launchPid _ => true
  | _ => false

end WatchdogPhase

/-- The processes of a supervisor are told apart by their pids until they are reaped. -/
structure Processes (s : State) : Prop where
  pid_ne_zero : ∀ i < s.forked, (s.instances i).pid ≠ 0
  distinct : ∀ i < s.forked, ∀ j < s.forked, (s.instances i).reaped = false →
    (s.instances j).reaped = false → (s.instances i).pid = (s.instances j).pid → i = j

/-- The invariant of the watchdog. -/
structure Bookkeeping (s : State) : Prop where
  processes : Processes s
  slot : s.clientSlot = s.watchdog.slot
  pid : s.currentPid = (s.watchdog.stored.map fun i => (s.instances i).pid).getD 0
  child : ∀ i, s.watchdog.child = some i → i < s.forked
  owned : ∀ i, s.watchdog.owned = some i → (s.instances i).reaped = false
  /-- Before the pid of a reaped instance is cleared, no instance holds it. -/
  reaped : ∀ i, s.watchdog = .clearPid i →
    ∀ j < s.forked, (s.instances j).reaped = false → (s.instances j).pid ≠ (s.instances i).pid
  launching : s.watchdog.Launching = true → s.heartbeat = .off
  /-- Nothing runs but the instance that the watchdog owns. -/
  running : ∀ i < s.forked, (s.instances i).exited = false → s.watchdog.owned = some i

variable {cfg : Config} {s s' : State} {i j pid : ℕ} {a : Action}

/-! ### Processes -/

/-- Some processes exit. -/
structure Exits (s s' : State) : Prop where
  forked : s'.forked = s.forked
  pid : ∀ i, (s'.instances i).pid = (s.instances i).pid
  reaped : ∀ i, (s'.instances i).reaped = (s.instances i).reaped
  exited : ∀ i, (s'.instances i).exited = false → (s.instances i).exited = false

theorem Exits.refl (s : State) : Exits s s := ⟨rfl, fun _ => rfl, fun _ => rfl, fun _ => id⟩

theorem exits_exit (s : State) (i : ℕ) : Exits s (s.exit i) := by
  refine ⟨rfl, fun j => ?_, fun j => ?_, fun j => ?_⟩ <;>
    rw [State.exit_instances, Function.update_apply] <;> split
  next hji => rw [hji]
  · rfl
  next hji => rw [hji]
  · rfl
  · exact nofun
  · exact id

theorem exits_kill (s : State) (pid : ℕ) : Exits s (s.kill pid) := by
  cases hholder : s.holder pid with
  | none =>
    have hinstances : (s.kill pid).instances = s.instances := by simp only [State.kill, hholder]
    exact ⟨rfl, fun _ => by rw [hinstances], fun _ => by rw [hinstances], hinstances ▸ fun _ => id⟩
  | some i =>
    have hinstances : (s.kill pid).instances = (s.exit i).instances := by
      simp only [State.kill, State.exit, hholder]
    exact ⟨rfl, hinstances ▸ (exits_exit s i).pid, hinstances ▸ (exits_exit s i).reaped,
      hinstances ▸ (exits_exit s i).exited⟩

theorem Processes.exits (h : Processes s) (he : Exits s s') : Processes s' := by
  refine ⟨fun i hi => ?_, fun i hi j hj hri hrj hpid => ?_⟩
  · rw [he.pid]
    exact h.pid_ne_zero i (he.forked ▸ hi)
  · rw [he.reaped] at hri hrj
    rw [he.pid, he.pid] at hpid
    exact h.distinct i (he.forked ▸ hi) j (he.forked ▸ hj) hri hrj hpid

theorem reap_pid (s : State) (i j : ℕ) : ((s.reap i).instances j).pid = (s.instances j).pid := by
  rw [State.reap_instances, Function.update_apply]
  split
  next hji => rw [hji]
  · rfl

theorem reap_reaped (s : State) (i j : ℕ) :
    ((s.reap i).instances j).reaped = (decide (j = i) || (s.instances j).reaped) := by
  rw [State.reap_instances, Function.update_apply]
  split
  next hji => simp [hji]
  next hji => simp [hji]

theorem Processes.reap (h : Processes s) (i : ℕ) : Processes (s.reap i) := by
  refine ⟨fun j hj => ?_, fun j hj k hk hrj hrk hpid => ?_⟩
  · rw [reap_pid]
    exact h.pid_ne_zero j hj
  · rw [reap_reaped, Bool.or_eq_false_iff] at hrj hrk
    rw [reap_pid, reap_pid] at hpid
    exact h.distinct j hj k hk hrj.2 hrk.2 hpid

/-- Once an instance is reaped, the instances that are not reaped have other pids. -/
theorem Processes.pid_ne_of_reap (h : Processes s) (hi : i < s.forked)
    (hr : (s.instances i).reaped = false) (hj : j < s.forked)
    (hrj : ((s.reap i).instances j).reaped = false) :
    ((s.reap i).instances j).pid ≠ (s.instances i).pid := by
  intro heq
  rw [reap_reaped, Bool.or_eq_false_iff, decide_eq_false_iff_not] at hrj
  rw [reap_pid] at heq
  exact hrj.1 (h.distinct j hj i hi hrj.2 hr heq)

/-- No instance that was not reaped holds the pid. -/
theorem holder_eq_none_iff : s.holder pid = none ↔
    ∀ i < s.forked, (s.instances i).reaped = false → (s.instances i).pid ≠ pid := by
  rw [State.holder, List.find?_eq_none]
  constructor
  · intro h i hi hr hpid
    exact h i (List.mem_range.mpr hi) (decide_eq_true ⟨hpid, hr⟩)
  · intro h i hi hpid
    exact h i (List.mem_range.mp hi) (of_decide_eq_true hpid).2 (of_decide_eq_true hpid).1

/-- An instance that was not reaped is the holder of its pid. -/
theorem holder_eq_some (h : Processes s) (hi : i < s.forked)
    (hr : (s.instances i).reaped = false) : s.holder (s.instances i).pid = some i := by
  cases hholder : s.holder (s.instances i).pid with
  | none => exact absurd rfl (holder_eq_none_iff.mp hholder i hi hr)
  | some j =>
    have hj := List.mem_range.mp (List.mem_of_find?_eq_some hholder)
    have hfound := List.find?_some hholder
    obtain ⟨hpid, hrj⟩ := of_decide_eq_true hfound
    rw [h.distinct j hj i hi hrj hr hpid]

theorem Processes.fork (h : Processes s) (hpid : pid ≠ 0) (hfree : s.holder pid = none) :
    Processes (s.fork pid) := by
  have hold {k : ℕ} (hk : k < s.forked) : (s.fork pid).instances k = s.instances k :=
    Function.update_of_ne (Nat.ne_of_lt hk) _ _
  have hnew : (s.fork pid).instances s.forked = ⟨pid, false, false⟩ := Function.update_self ..
  have hfree' := holder_eq_none_iff.mp hfree
  refine ⟨fun k hk => ?_, fun k hk l hl hrk hrl heq => ?_⟩
  · rcases Nat.lt_succ_iff_lt_or_eq.mp hk with hk | rfl
    · rw [hold hk]
      exact h.pid_ne_zero k hk
    · rw [hnew]
      exact hpid
  · rcases Nat.lt_succ_iff_lt_or_eq.mp hk with hk | rfl <;>
      rcases Nat.lt_succ_iff_lt_or_eq.mp hl with hl | rfl
    · rw [hold hk] at hrk heq
      rw [hold hl] at hrl heq
      exact h.distinct k hk l hl hrk hrl heq
    · rw [hold hk] at hrk heq
      rw [hnew] at heq
      exact absurd heq (hfree' k hk hrk)
    · rw [hold hl] at hrl heq
      rw [hnew] at heq
      exact absurd heq.symm (hfree' l hl hrl)
    · rfl

/-! ### The invariant -/

/-- The invariant at a given program point. -/
theorem Bookkeeping.at_point {w : WatchdogPhase} (h : Bookkeeping s) (hw : s.watchdog = w) :
    s.clientSlot = w.slot ∧
      s.currentPid = (w.stored.map fun i => (s.instances i).pid).getD 0 ∧
      (∀ i, w.child = some i → i < s.forked) ∧
      (∀ i, w.owned = some i → (s.instances i).reaped = false) ∧
      (w.Launching = true → s.heartbeat = .off) ∧
      ∀ i < s.forked, (s.instances i).exited = false → w.owned = some i := by
  subst hw
  exact ⟨h.slot, h.pid, h.child, h.owned, h.launching, h.running⟩

/-- A step of another task keeps the invariant. -/
theorem Bookkeeping.frame (h : Bookkeeping s) (he : Exits s s')
    (hw : s'.watchdog = s.watchdog) (hslot : s'.clientSlot = s.clientSlot)
    (hpid : s'.currentPid = s.currentPid)
    (hh : s.watchdog.Launching = true → s'.heartbeat = s.heartbeat) : Bookkeeping s' where
  processes := h.processes.exits he
  slot := by rw [hslot, hw, h.slot]
  pid := by
    rw [hpid, hw, h.pid]
    simp only [he.pid]
  child i hi := by
    rw [he.forked]
    exact h.child i (hw ▸ hi)
  owned i hi := by
    rw [he.reaped]
    exact h.owned i (hw ▸ hi)
  reaped i hi j hj hr := by
    rw [he.reaped] at hr
    rw [he.pid, he.pid]
    exact h.reaped i (hw ▸ hi) j (he.forked ▸ hj) hr
  launching hl := by
    rw [hw] at hl
    rw [hh hl, h.launching hl]
  running i hi hrun := by
    rw [hw]
    exact h.running i (he.forked ▸ hi) (he.exited i hrun)

/-- A step of the heartbeat keeps the invariant. -/
theorem Bookkeeping.heartbeat (h : Bookkeeping s) (hon : s.heartbeat ≠ .off) (he : Exits s s')
    (hw : s'.watchdog = s.watchdog) (hslot : s'.clientSlot = s.clientSlot)
    (hpid : s'.currentPid = s.currentPid) : Bookkeeping s' :=
  h.frame he hw hslot hpid fun hl => absurd (h.launching hl) hon

theorem reap_exited (s : State) (i j : ℕ) :
    ((s.reap i).instances j).exited = (s.instances j).exited := by
  rw [State.reap_instances, Function.update_apply]
  split
  next hji => rw [hji]
  · rfl

/-- An instance that exits, or was reaped, or never ran leaves no instance that runs. -/
theorem Bookkeeping.none_running {w : WatchdogPhase} (h : Bookkeeping s) (hw : s.watchdog = w)
    (hexited : ∀ i, w.owned = some i → (s.instances i).exited = true) :
    ∀ i < s.forked, (s.instances i).exited = false → none = some i := by
  intro i hi hrun
  subst hw
  have hexit := hexited i (h.running i hi hrun)
  rw [hrun] at hexit
  cases hexit

theorem WatchdogPhase.child_of_owned {w : WatchdogPhase} (h : w.owned = some i) :
    w.child = some i := by
  cases w <;> first | exact h | cases h

/-- The reaping of an instance that the watchdog does not hold changes nothing. -/
theorem Bookkeeping.reapOrphan (h : Bookkeeping s) (hchild : s.watchdog.child ≠ some i) :
    Bookkeeping (s.reap i) where
  processes := h.processes.reap i
  slot := h.slot
  pid := by
    simp only [reap_pid]
    exact h.pid
  child := h.child
  owned j hj := by
    have hji : j ≠ i := by
      rintro rfl
      exact hchild (WatchdogPhase.child_of_owned hj)
    rw [reap_reaped, decide_eq_false hji, Bool.false_or]
    exact h.owned j hj
  reaped j hj k hk hr := by
    rw [reap_reaped, Bool.or_eq_false_iff] at hr
    rw [reap_pid, reap_pid]
    exact h.reaped j hj k hk hr.2
  launching := h.launching
  running j hj hrun := by
    rw [reap_exited] at hrun
    exact h.running j hj hrun

/-- The watchdog reaps its instance: the stored pid belongs to no instance from here on. -/
theorem Bookkeeping.reap (h : Bookkeeping s) (hw : s.watchdog = .waiting i)
    (hexited : (s.instances i).exited = true) :
    Bookkeeping { s.reap i with watchdog := .clearPid i } := by
  obtain ⟨hslot, hpid, hchild, howned, -⟩ := h.at_point hw
  have hreap := h.processes.reap i
  refine ⟨⟨hreap.pid_ne_zero, hreap.distinct⟩, hslot, ?_, hchild, nofun, ?_, nofun, ?_⟩
  · show s.currentPid = ((s.reap i).instances i).pid
    rw [reap_pid]
    exact hpid
  · rintro _ ⟨⟩ j hj hr
    show ((s.reap i).instances j).pid ≠ ((s.reap i).instances i).pid
    rw [reap_pid s i i]
    exact h.processes.pid_ne_of_reap (hchild i rfl) (howned i rfl) hj hr
  · intro j hj hrun
    have hrun' : ((s.reap i).instances j).exited = false := hrun
    rw [reap_exited] at hrun'
    refine h.none_running hw ?_ j hj hrun'
    rintro _ ⟨⟩
    exact hexited

/-- A new instance is the one that the watchdog owns. -/
theorem Bookkeeping.fork (h : Bookkeeping s) (hw : s.watchdog = .spawning) (hpid : pid ≠ 0)
    (hfree : s.holder pid = none) : Bookkeeping (s.fork pid) := by
  obtain ⟨hslot, hzero, -, -, -, hrun⟩ := h.at_point hw
  refine ⟨h.processes.fork hpid hfree, hslot, hzero, ?_, ?_, nofun, nofun,
    fun j hj hrunning => ?_⟩
  · rintro _ ⟨⟩
    exact Nat.lt_succ_self _
  · rintro _ ⟨⟩
    show ((s.fork pid).instances s.forked).reaped = false
    rw [State.fork_instances, Function.update_self]
  · rcases Nat.lt_succ_iff_lt_or_eq.mp hj with hj | rfl
    · rw [State.fork_instances, Function.update_of_ne (Nat.ne_of_lt hj)] at hrunning
      cases hrun j hj hrunning
    · rfl

/-- The instance of a failed attempt exits, so none runs afterwards. -/
theorem Bookkeeping.startFailed (h : Bookkeeping s) (hw : s.watchdog = .starting i) :
    Bookkeeping (s.exit i).spawnFailed := by
  obtain ⟨hslot, hpid, -, -, -, hrun⟩ := h.at_point hw
  have hexit := exits_exit s i
  have hprocesses := h.processes.exits hexit
  refine ⟨⟨hprocesses.pid_ne_zero, hprocesses.distinct⟩, hslot, hpid, nofun, nofun, nofun, nofun,
    fun j hj hrunning => ?_⟩
  have hrunning' : ((s.exit i).instances j).exited = false := hrunning
  obtain rfl : i = j := Option.some.inj (hrun j hj (hexit.exited j hrunning'))
  rw [State.exit_instances, Function.update_self] at hrunning'
  cases hrunning'

/-- **Step lemma.** Every step keeps the bookkeeping. -/
theorem bookkeeping_of_step (h : Bookkeeping s) (hstep : Trans cfg s a s') : Bookkeeping s' := by
  have he : Exits s s := .refl s
  have hsame {s' : State} (hforked : s'.forked = s.forked)
      (hinstances : s'.instances = s.instances) : Processes s' :=
    h.processes.exits ⟨hforked, by simp [hinstances], by simp [hinstances], by simp [hinstances]⟩
  cases hstep with
  | wait => exact h.frame ⟨rfl, he.pid, he.reaped, he.exited⟩ rfl rfl rfl fun _ => rfl
  | exit => exact h.frame (exits_exit s _) rfl rfl rfl fun _ => rfl
  | reapOrphan hchild => exact h.reapOrphan hchild
  | @launchSlot i hw =>
    obtain ⟨-, hpid, hchild, howned, hoff, hrun⟩ := h.at_point hw
    exact ⟨hsame rfl rfl, rfl, hpid, hchild, howned, nofun, hoff, hrun⟩
  | @launchPid i hw =>
    obtain ⟨hslot, -, hchild, howned, -, hrun⟩ := h.at_point hw
    exact ⟨hsame rfl rfl, hslot, rfl, hchild, howned, nofun, nofun, hrun⟩
  | reap hw hexited => exact h.reap hw hexited
  | @clearPid i hw =>
    obtain ⟨hslot, -, hchild, -, -, hrun⟩ := h.at_point hw
    exact ⟨hsame rfl rfl, hslot, rfl, hchild, nofun, nofun, nofun, hrun⟩
  | @clearSlot i hw =>
    obtain ⟨-, hpid, -, -, -, hrun⟩ := h.at_point hw
    exact ⟨hsame rfl rfl, rfl, hpid, nofun, nofun, nofun, nofun, hrun⟩
  | backedOff hw =>
    obtain ⟨hslot, hpid, -, -, -, hrun⟩ := h.at_point hw
    exact ⟨hsame rfl rfl, hslot, hpid, nofun, nofun, nofun, nofun, hrun⟩
  | @storePid i hw =>
    obtain ⟨hslot, -, hchild, howned, -, hrun⟩ := h.at_point hw
    exact ⟨hsame rfl rfl, hslot, rfl, hchild, howned, nofun, nofun, hrun⟩
  | @storeSlot i hw =>
    obtain ⟨-, hpid, hchild, howned, -, hrun⟩ := h.at_point hw
    exact ⟨hsame rfl rfl, rfl, hpid, hchild, howned, nofun, nofun, hrun⟩
  | @bump i hw =>
    obtain ⟨hslot, hpid, hchild, howned, -, hrun⟩ := h.at_point hw
    exact ⟨hsame rfl rfl, hslot, hpid, hchild, howned, nofun, nofun, hrun⟩
  | forkFailed hw =>
    obtain ⟨hslot, hpid, -, -, -, hrun⟩ := h.at_point hw
    exact ⟨hsame rfl rfl, hslot, hpid, nofun, nofun, nofun, nofun, hrun⟩
  | fork hw hpid hfree => exact h.fork hw hpid hfree
  | @started i hw =>
    obtain ⟨hslot, hpid, hchild, howned, -, hrun⟩ := h.at_point hw
    exact ⟨hsame rfl rfl, hslot, hpid, hchild, howned, nofun, nofun, hrun⟩
  | startFailed hw => exact h.startFailed hw
  | skip hh | probe hh | connect hh | probeOk hh | judge hh | suppress hh | count hh | spend hh
  | noPid hh | loadPid hh =>
    exact h.heartbeat (by simp [hh]) ⟨rfl, he.pid, he.reaped, he.exited⟩ rfl rfl rfl
  | probeFailed hr hh =>
    exact h.heartbeat (by simp [hh]) ⟨rfl, he.pid, he.reaped, he.exited⟩ rfl rfl rfl
  | @kill p pid hh =>
    have hkill := exits_kill s pid
    exact h.heartbeat (by simp [hh]) ⟨rfl, hkill.pid, hkill.reaped, hkill.exited⟩ rfl rfl rfl
  | complete => exact h.frame ⟨rfl, he.pid, he.reaped, he.exited⟩ rfl rfl rfl fun _ => rfl
  | stamp => exact h.frame ⟨rfl, he.pid, he.reaped, he.exited⟩ rfl rfl rfl fun _ => rfl

variable {C : State → Action → Prop}

/-- **Run lemma.** The bookkeeping holds in every reachable state. -/
theorem bookkeeping_of_reachable (hs : (machine cfg).Reachable C s) : Bookkeeping s := by
  refine hs.invariant ?_ fun _ _ _ h _ hstep => bookkeeping_of_step h (trans_of_step hstep)
  rintro _ ⟨pid, clock, hpid, rfl⟩
  refine ⟨⟨fun i hi => hpid, fun i hi j hj _ _ _ => ?_⟩, rfl, rfl, ?_, ?_, nofun, fun _ => rfl,
    fun i hi _ => congrArg some (Nat.lt_one_iff.mp hi).symm⟩
  · exact (Nat.lt_one_iff.mp hi).trans (Nat.lt_one_iff.mp hj).symm
  · rintro _ ⟨⟩
    exact Nat.one_pos
  · rintro _ ⟨⟩
    rfl

end OxEmbed.Supervisor

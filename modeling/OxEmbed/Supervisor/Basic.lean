import Mathlib.Data.List.Basic
import Mathlib.Logic.Function.Basic
import Mathlib.Tactic.Simps.Basic
import OxEmbed.Library.Machine

/-!
# The worker supervisor

The supervisor of one worker, of `supervisor/handle.rs`: the watchdog, which reaps the worker when
it exits and respawns it with a growing delay, and beside it the heartbeat, which probes the worker
and kills it after too many failed probes. The two tasks share the client slot, the pid of the
worker and the stamp of the last success; every store and every load of one of these is a step of
its own. The stamp is written by the dispatches that complete an inference.

The processes that the supervisor forks are its *instances*, numbered in the order of the forks. An
instance holds its pid until it is reaped; afterwards the system may give the pid to a new process.
An instance may exit at any moment. All clients of a supervisor use one socket path, so a probe
reaches whichever instance runs when it connects. How long the tasks sleep, what a probe returns
and whether a fork succeeds are choices of the schedule; the clock never goes back.

The fields `failures`, `completed`, `stamps`, `counted`, `kills` and `ticks` of a state are history
variables: no step reads them.

## Main definitions

* `Config`, `Instance`, `Probe` : the data.
* `WatchdogPhase`, `HeartbeatPhase`, `State`, `Action` : the program points, the supervisor, the
  choices of a schedule.
* `watchdogStep`, `heartbeatStep`, `step`, `machine` : one step, and the supervisor as a machine.
* `Trans` : what a step can do, one constructor for each branch of the source.

## Main results

* `trans_of_step` : every step is one of the transitions `Trans`.
-/

namespace OxEmbed.Supervisor

/-! ### The data -/

/-- `INITIAL_BACKOFF`, in seconds. -/
def initialBackoff : ℕ := 2

/-- `MAX_BACKOFF`, in seconds. -/
def maxBackoff : ℕ := 60

/-- Advance the backoff by doubling, capped at `maxBackoff`. -/
def nextBackoff (current : ℕ) : ℕ := min (current * 2) maxBackoff

/-- The heartbeat values that `launch` resolves; zero fails are replaced by the default. -/
structure Config where
  /-- In seconds; the heartbeat runs unless this is zero. -/
  heartbeatInterval : ℕ
  heartbeatMaxFails : ℕ
  /-- In milliseconds. -/
  heartbeatFreshnessWindow : ℕ
  maxFails_pos : 0 < heartbeatMaxFails

/-- The values that `launch` resolves when no variable is set. -/
def defaultConfig : Config where
  heartbeatInterval := 30
  heartbeatMaxFails := 3
  heartbeatFreshnessWindow := 3 * 30 * 1000
  maxFails_pos := by decide

/-- A process that the supervisor forked. -/
structure Instance where
  pid : ℕ
  exited : Bool
  reaped : Bool
  deriving DecidableEq

/-- A heartbeat probe. -/
structure Probe where
  /-- The instance whose client the probe uses. -/
  client : ℕ
  /-- The instance that the probe has connected to. -/
  reached : Option ℕ
  deriving DecidableEq

/-- What the probe returns within its timeout. -/
inductive ProbeResult
  | ok
  /-- The worker answers with an error. -/
  | errReply
  | ioError
  | timeout
  deriving DecidableEq

inductive HeartbeatOutcome
  | ok
  | suppressed
  | failed
  | skipped
  | killed
  deriving DecidableEq

/-- A `SIGKILL` of the heartbeat. -/
structure Kill where
  pid : ℕ
  /-- The instance that held the pid and was not reaped. -/
  target : Option ℕ
  /-- The failed probes that were counted. -/
  counted : List Probe
  deriving DecidableEq

/-- A tick of the heartbeat that has ended. -/
structure Tick where
  outcome : HeartbeatOutcome
  probe : Option Probe
  /-- The time at which the tick ended. -/
  time : ℕ
  deriving DecidableEq

/-- The program point of `launch` after its spawn, and then of `watchdog_loop`. -/
inductive WatchdogPhase
  /-- `launch` is about to store the client. -/
  | launchSlot (i : ℕ)
  /-- `launch` is about to store the pid. -/
  | launchPid (i : ℕ)
  /-- In `child.wait`. -/
  | waiting (i : ℕ)
  /-- In `clear_on_exit`, about to clear the pid. -/
  | clearPid (i : ℕ)
  /-- In `clear_on_exit`, about to clear the client slot. -/
  | clearSlot (i : ℕ)
  /-- In the sleep before a spawn attempt. -/
  | backingOff
  /-- In `spawn_one`, before the fork. -/
  | spawning
  /-- In `spawn_one`, waiting for the socket of the instance or connecting to it. -/
  | starting (i : ℕ)
  /-- About to store the pid of the new instance. -/
  | storePid (i : ℕ)
  /-- About to store the client of the new instance. -/
  | storeSlot (i : ℕ)
  /-- About to count the restart and to reset the backoff. -/
  | bump (i : ℕ)
  deriving DecidableEq

/-- The instance whose process handle the watchdog holds. -/
def WatchdogPhase.child : WatchdogPhase → Option ℕ
  | .launchSlot i | .launchPid i | .waiting i | .clearPid i | .clearSlot i | .starting i
  | .storePid i | .storeSlot i | .bump i => some i
  | .backingOff | .spawning => none

/-- The program point of the heartbeat. -/
inductive HeartbeatPhase
  /-- The heartbeat was not started. -/
  | off
  /-- In the sleep of `heartbeat_loop`. -/
  | sleeping
  /-- Awaiting the probe. -/
  | probing (p : Probe)
  /-- The probe has failed; about to read the clock. -/
  | judging (p : Probe)
  /-- About to load the stamp of the last success. -/
  | judged (p : Probe) (now : ℕ)
  /-- The fails are used up; about to load the pid. -/
  | loadPid (p : Probe)
  /-- About to send the signal. -/
  | killing (p : Probe) (pid : ℕ)
  deriving DecidableEq

/-- The state of a supervisor. -/
structure State where
  /-- In milliseconds. -/
  clock : ℕ
  /-- The number of instances forked so far. -/
  forked : ℕ
  instances : ℕ → Instance
  watchdog : WatchdogPhase
  heartbeat : HeartbeatPhase
  /-- `0` when there is no worker. -/
  currentPid : ℕ
  /-- The client slot, with the instance that the client was made for. -/
  clientSlot : Option ℕ
  restartCount : ℕ
  /-- In seconds. -/
  backoff : ℕ
  /-- `last_success_ms`, `0` when it was never stamped. -/
  lastSuccess : ℕ
  consecutiveFails : ℕ
  /-- The dispatches that have received a response and not stamped it: the instance that completed
  the inference, and when. -/
  unstamped : List (ℕ × ℕ)
  /-- History: the failed spawn attempts since the last success. -/
  failures : ℕ
  /-- History: the inferences that were completed. -/
  completed : List (ℕ × ℕ)
  /-- History: the inferences that were stamped, with the times of the stamps. -/
  stamps : List ((ℕ × ℕ) × ℕ)
  /-- History: the failed probes counted since the last reset. -/
  counted : List Probe
  /-- History: the signals sent. -/
  kills : List Kill
  /-- History: the ticks that have ended. -/
  ticks : List Tick

/-- The actions of a schedule. -/
inductive Action
  /-- Some time passes. -/
  | wait (d : ℕ)
  /-- An instance exits. -/
  | exit (i : ℕ)
  /-- An instance whose spawn attempt failed is reaped. -/
  | reapOrphan (i : ℕ)
  /-- The watchdog performs its next step. -/
  | watchdog
  /-- The fork of a spawn attempt gives a process or fails. -/
  | fork (pid : Option ℕ)
  /-- The instance of a spawn attempt has started, or the attempt fails. -/
  | started (ok : Bool)
  /-- The heartbeat performs its next step. -/
  | heartbeat
  /-- The probe connects to an instance. -/
  | connect (i : ℕ)
  /-- The probe returns. -/
  | probed (r : ProbeResult)
  /-- An instance completes an inference, and the dispatch receives its response. -/
  | complete (i : ℕ)
  /-- `record_success` of a dispatch that has received a response. -/
  | stamp (k : ℕ)
  deriving DecidableEq

namespace State

variable (s : State)

/-- The unreaped instance that holds a pid. -/
def holder (pid : ℕ) : Option ℕ :=
  (List.range s.forked).find? fun i => (s.instances i).pid = pid ∧ (s.instances i).reaped = false

/-- The instance runs. -/
def Running (i : ℕ) : Bool := decide (i < s.forked) && !(s.instances i).exited

/-- The process of an instance exits. -/
@[simps instances] def exit (i : ℕ) : State :=
  { s with instances := Function.update s.instances i { s.instances i with exited := true } }

@[simps instances] def reap (i : ℕ) : State :=
  { s with instances := Function.update s.instances i { s.instances i with reaped := true } }

/-- A new process is forked. -/
@[simps instances] def fork (pid : ℕ) : State :=
  { s with
    forked := s.forked + 1
    instances := Function.update s.instances s.forked ⟨pid, false, false⟩
    watchdog := .starting s.forked }

/-- A spawn attempt fails. -/
def spawnFailed : State :=
  { s with
    watchdog := .backingOff
    backoff := nextBackoff s.backoff
    failures := s.failures + 1 }

/-- A tick of the heartbeat ends. -/
def endTick (outcome : HeartbeatOutcome) (probe : Option Probe) : State :=
  { s with
    heartbeat := .sleeping
    ticks := s.ticks ++ [⟨outcome, probe, s.clock⟩] }

/-- `*consecutive_fails = 0`. -/
def resetFails : State := { s with consecutiveFails := 0, counted := [] }

/-- `*consecutive_fails += 1`. -/
def countFail (p : Probe) : State :=
  { s with consecutiveFails := s.consecutiveFails + 1, counted := s.counted ++ [p] }

/-- `libc::kill(pid, SIGKILL)`: the process that holds the pid exits. -/
def kill (pid : ℕ) : State :=
  { s with
    instances := match s.holder pid with
      | some i => Function.update s.instances i { s.instances i with exited := true }
      | none => s.instances
    kills := s.kills ++ [⟨pid, s.holder pid, s.counted⟩] }

end State

/-! ### One step -/

/-- The next step of `launch` after its spawn, and then of `watchdog_loop`. -/
def watchdogStep (cfg : Config) (s : State) : Option State :=
  match s.watchdog with
  | .launchSlot i => some { s with clientSlot := some i, watchdog := .launchPid i }
  | .launchPid i =>
    some { s with
      currentPid := (s.instances i).pid
      watchdog := .waiting i
      heartbeat := if cfg.heartbeatInterval = 0 then .off else .sleeping }
  | .waiting i =>
    if (s.instances i).exited then some { s.reap i with watchdog := .clearPid i } else none
  | .clearPid i => some { s with currentPid := 0, watchdog := .clearSlot i }
  | .clearSlot _ => some { s with clientSlot := none, watchdog := .backingOff }
  | .backingOff => some { s with watchdog := .spawning }
  | .spawning | .starting _ => none
  | .storePid i => some { s with currentPid := (s.instances i).pid, watchdog := .storeSlot i }
  | .storeSlot i => some { s with clientSlot := some i, watchdog := .bump i }
  | .bump i =>
    some { s with
      restartCount := s.restartCount + 1
      backoff := initialBackoff
      failures := 0
      watchdog := .waiting i }

/-- The next step of the heartbeat, outside the probe. -/
def heartbeatStep (cfg : Config) (s : State) : Option State :=
  match s.heartbeat with
  | .off | .probing _ => none
  | .sleeping =>
    match s.clientSlot with
    | none => some (s.resetFails.endTick .skipped none)
    | some i => some { s with heartbeat := .probing ⟨i, none⟩ }
  | .judging p => some { s with heartbeat := .judged p s.clock }
  | .judged p now =>
    if s.lastSuccess > 0 ∧ now - s.lastSuccess < cfg.heartbeatFreshnessWindow then
      some (s.endTick .suppressed (some p))
    else if s.consecutiveFails + 1 < cfg.heartbeatMaxFails then
      some ((s.countFail p).endTick .failed (some p))
    else some { s.countFail p with heartbeat := .loadPid p }
  | .loadPid p =>
    if s.currentPid = 0 then some (s.resetFails.endTick .skipped (some p))
    else some { s with heartbeat := .killing p s.currentPid }
  | .killing p pid => some ((s.kill pid).resetFails.endTick .killed (some p))

/-- One step of the supervisor. -/
def step (cfg : Config) (s : State) : Action → Option State
  | .wait d => some { s with clock := s.clock + d }
  | .exit i => if s.Running i then some (s.exit i) else none
  | .reapOrphan i =>
    -- the handle of a failed attempt was dropped, so the watchdog does not hold it
    if s.watchdog.child ≠ some i ∧ (s.instances i).exited then some (s.reap i) else none
  | .watchdog => watchdogStep cfg s
  | .fork pid =>
    match s.watchdog, pid with
    | .spawning, none => some s.spawnFailed
    | .spawning, some pid => if pid ≠ 0 ∧ s.holder pid = none then some (s.fork pid) else none
    | _, _ => none
  | .started ok =>
    match s.watchdog with
    | .starting i =>
      if ok then some { s with watchdog := .storePid i } else some (s.exit i).spawnFailed
    | _ => none
  | .heartbeat => heartbeatStep cfg s
  | .connect i =>
    match s.heartbeat with
    | .probing ⟨client, none⟩ =>
      if s.Running i then some { s with heartbeat := .probing ⟨client, some i⟩ } else none
    | _ => none
  | .probed r =>
    match s.heartbeat with
    | .probing p =>
      match r with
      | .ok => if p.reached = none then none else some (s.resetFails.endTick .ok (some p))
      | .errReply => if p.reached = none then none else some { s with heartbeat := .judging p }
      | .ioError | .timeout => some { s with heartbeat := .judging p }
    | _ => none
  | .complete i =>
    if s.Running i then
      some { s with
        unstamped := s.unstamped ++ [(i, s.clock)]
        completed := s.completed ++ [(i, s.clock)] }
    else none
  | .stamp k =>
    match s.unstamped[k]? with
    | some x =>
      some { s with
        lastSuccess := s.clock
        unstamped := s.unstamped.eraseIdx k
        stamps := s.stamps ++ [(x, s.clock)] }
    | none => none

/-- A worker with the given pid was spawned by `launch`. -/
def State.launched (pid : ℕ) : State where
  clock := 0
  forked := 1
  instances := fun _ => ⟨pid, false, false⟩
  watchdog := .launchSlot 0
  heartbeat := .off
  currentPid := 0
  clientSlot := none
  restartCount := 0
  backoff := initialBackoff
  lastSuccess := 0
  consecutiveFails := 0
  unstamped := []
  failures := 0
  completed := []
  stamps := []
  counted := []
  kills := []
  ticks := []

/-- The supervisor as a machine. -/
def machine (cfg : Config) : Machine State Action :=
  ⟨fun s => ∃ pid clock, pid ≠ 0 ∧ s = { State.launched pid with clock }, step cfg⟩

/-! ### What a step can do -/

/-- What one step can do, one constructor for each branch of the source. -/
inductive Trans (cfg : Config) (s : State) : Action → State → Prop
  | wait (d : ℕ) : Trans cfg s (.wait d) { s with clock := s.clock + d }
  | exit {i : ℕ} (hi : s.Running i = true) : Trans cfg s (.exit i) (s.exit i)
  | reapOrphan {i : ℕ} (hchild : s.watchdog.child ≠ some i)
      (hexited : (s.instances i).exited = true) : Trans cfg s (.reapOrphan i) (s.reap i)
  | launchSlot {i : ℕ} (hw : s.watchdog = .launchSlot i) :
      Trans cfg s .watchdog { s with clientSlot := some i, watchdog := .launchPid i }
  | launchPid {i : ℕ} (hw : s.watchdog = .launchPid i) :
      Trans cfg s .watchdog { s with
        currentPid := (s.instances i).pid
        watchdog := .waiting i
        heartbeat := if cfg.heartbeatInterval = 0 then .off else .sleeping }
  | reap {i : ℕ} (hw : s.watchdog = .waiting i) (hexited : (s.instances i).exited = true) :
      Trans cfg s .watchdog { s.reap i with watchdog := .clearPid i }
  | clearPid {i : ℕ} (hw : s.watchdog = .clearPid i) :
      Trans cfg s .watchdog { s with currentPid := 0, watchdog := .clearSlot i }
  | clearSlot {i : ℕ} (hw : s.watchdog = .clearSlot i) :
      Trans cfg s .watchdog { s with clientSlot := none, watchdog := .backingOff }
  | backedOff (hw : s.watchdog = .backingOff) :
      Trans cfg s .watchdog { s with watchdog := .spawning }
  | storePid {i : ℕ} (hw : s.watchdog = .storePid i) :
      Trans cfg s .watchdog { s with
        currentPid := (s.instances i).pid
        watchdog := .storeSlot i }
  | storeSlot {i : ℕ} (hw : s.watchdog = .storeSlot i) :
      Trans cfg s .watchdog { s with clientSlot := some i, watchdog := .bump i }
  | bump {i : ℕ} (hw : s.watchdog = .bump i) :
      Trans cfg s .watchdog { s with
        restartCount := s.restartCount + 1
        backoff := initialBackoff
        failures := 0
        watchdog := .waiting i }
  | forkFailed (hw : s.watchdog = .spawning) : Trans cfg s (.fork none) s.spawnFailed
  | fork {pid : ℕ} (hw : s.watchdog = .spawning) (hpid : pid ≠ 0) (hfree : s.holder pid = none) :
      Trans cfg s (.fork (some pid)) (s.fork pid)
  | started {i : ℕ} (hw : s.watchdog = .starting i) :
      Trans cfg s (.started true) { s with watchdog := .storePid i }
  | startFailed {i : ℕ} (hw : s.watchdog = .starting i) :
      Trans cfg s (.started false) (s.exit i).spawnFailed
  | skip (hh : s.heartbeat = .sleeping) (hslot : s.clientSlot = none) :
      Trans cfg s .heartbeat (s.resetFails.endTick .skipped none)
  | probe {i : ℕ} (hh : s.heartbeat = .sleeping) (hslot : s.clientSlot = some i) :
      Trans cfg s .heartbeat { s with heartbeat := .probing ⟨i, none⟩ }
  | connect {client i : ℕ} (hh : s.heartbeat = .probing ⟨client, none⟩)
      (hi : s.Running i = true) :
      Trans cfg s (.connect i) { s with heartbeat := .probing ⟨client, some i⟩ }
  | probeOk {p : Probe} (hh : s.heartbeat = .probing p) (hreached : p.reached ≠ none) :
      Trans cfg s (.probed .ok) (s.resetFails.endTick .ok (some p))
  | probeFailed {p : Probe} {r : ProbeResult} (hr : r ≠ .ok) (hh : s.heartbeat = .probing p) :
      Trans cfg s (.probed r) { s with heartbeat := .judging p }
  | judge {p : Probe} (hh : s.heartbeat = .judging p) :
      Trans cfg s .heartbeat { s with heartbeat := .judged p s.clock }
  | suppress {p : Probe} {now : ℕ} (hh : s.heartbeat = .judged p now) (hlast : 0 < s.lastSuccess)
      (hfresh : now - s.lastSuccess < cfg.heartbeatFreshnessWindow) :
      Trans cfg s .heartbeat (s.endTick .suppressed (some p))
  | count {p : Probe} {now : ℕ} (hh : s.heartbeat = .judged p now)
      (hstale : ¬ (0 < s.lastSuccess ∧ now - s.lastSuccess < cfg.heartbeatFreshnessWindow))
      (hmore : s.consecutiveFails + 1 < cfg.heartbeatMaxFails) :
      Trans cfg s .heartbeat ((s.countFail p).endTick .failed (some p))
  | spend {p : Probe} {now : ℕ} (hh : s.heartbeat = .judged p now)
      (hstale : ¬ (0 < s.lastSuccess ∧ now - s.lastSuccess < cfg.heartbeatFreshnessWindow))
      (hmax : cfg.heartbeatMaxFails ≤ s.consecutiveFails + 1) :
      Trans cfg s .heartbeat { s.countFail p with heartbeat := .loadPid p }
  | noPid {p : Probe} (hh : s.heartbeat = .loadPid p) (hpid : s.currentPid = 0) :
      Trans cfg s .heartbeat (s.resetFails.endTick .skipped (some p))
  | loadPid {p : Probe} (hh : s.heartbeat = .loadPid p) (hpid : s.currentPid ≠ 0) :
      Trans cfg s .heartbeat { s with heartbeat := .killing p s.currentPid }
  | kill {p : Probe} {pid : ℕ} (hh : s.heartbeat = .killing p pid) :
      Trans cfg s .heartbeat ((s.kill pid).resetFails.endTick .killed (some p))
  | complete {i : ℕ} (hi : s.Running i = true) :
      Trans cfg s (.complete i) { s with
        unstamped := s.unstamped ++ [(i, s.clock)]
        completed := s.completed ++ [(i, s.clock)] }
  | stamp {k : ℕ} {x : ℕ × ℕ} (hx : s.unstamped[k]? = some x) :
      Trans cfg s (.stamp k) { s with
        lastSuccess := s.clock
        unstamped := s.unstamped.eraseIdx k
        stamps := s.stamps ++ [(x, s.clock)] }

variable {cfg : Config} {s s' : State} {a : Action}

theorem trans_of_watchdogStep (h : watchdogStep cfg s = some s') : Trans cfg s .watchdog s' := by
  unfold watchdogStep at h
  split at h
  next hw => cases h; exact .launchSlot hw
  next hw => cases h; exact .launchPid hw
  next hw =>
    split at h
    next hexited => cases h; exact .reap hw hexited
    · cases h
  next hw => cases h; exact .clearPid hw
  next hw => cases h; exact .clearSlot hw
  next hw => cases h; exact .backedOff hw
  · cases h
  · cases h
  next hw => cases h; exact .storePid hw
  next hw => cases h; exact .storeSlot hw
  next hw => cases h; exact .bump hw

theorem trans_of_heartbeatStep (h : heartbeatStep cfg s = some s') :
    Trans cfg s .heartbeat s' := by
  unfold heartbeatStep at h
  split at h
  · cases h
  · cases h
  next hh =>
    split at h
    next hslot => cases h; exact .skip hh hslot
    next hslot => cases h; exact .probe hh hslot
  next hh => cases h; exact .judge hh
  next hh =>
    split at h
    next hfresh => cases h; exact .suppress hh hfresh.1 hfresh.2
    next hstale =>
      split at h
      next hmore => cases h; exact .count hh hstale hmore
      next hmax => cases h; exact .spend hh hstale (Nat.le_of_not_lt hmax)
  next hh =>
    split at h
    next hpid => cases h; exact .noPid hh hpid
    next hpid => cases h; exact .loadPid hh hpid
  next hh => cases h; exact .kill hh

/-- **Step lemma.** Every step is one of the transitions `Trans`. -/
theorem trans_of_step (h : step cfg s a = some s') : Trans cfg s a s' := by
  unfold step at h
  split at h
  next => cases h; exact .wait _
  next =>
    split at h
    next hi => cases h; exact .exit hi
    · cases h
  next =>
    split at h
    next hi => cases h; exact .reapOrphan hi.1 hi.2
    · cases h
  next => exact trans_of_watchdogStep h
  next =>
    split at h
    next hw => cases h; exact .forkFailed hw
    next hw =>
      split at h
      next hpid => cases h; exact .fork hw hpid.1 hpid.2
      · cases h
    · cases h
  next ok =>
    split at h
    next hw =>
      cases ok with
      | true => cases h; exact .started hw
      | false => cases h; exact .startFailed hw
    · cases h
  next => exact trans_of_heartbeatStep h
  next =>
    split at h
    next hh =>
      split at h
      next hi => cases h; exact .connect hh hi
      · cases h
    · cases h
  next r =>
    split at h
    next hh =>
      cases r with
      | ok =>
        simp only at h
        split at h
        · cases h
        next hreached => cases h; exact .probeOk hh hreached
      | errReply =>
        simp only at h
        split at h
        · cases h
        next => cases h; exact .probeFailed (by decide) hh
      | ioError => cases h; exact .probeFailed (by decide) hh
      | timeout => cases h; exact .probeFailed (by decide) hh
    · cases h
  next =>
    split at h
    next hi => cases h; exact .complete hi
    · cases h
  next =>
    split at h
    next hx => cases h; exact .stamp hx
    · cases h

end OxEmbed.Supervisor

import OxEmbed.Startup.Config
import OxEmbed.Supervisor.Bookkeeping

/-!
# The settings of a supervisor

The settings that `launch` reads from the environment. A variable that does not hold a
positive number of its type falls back to a default, so zero is not a value that a variable can
set: the heartbeat of a supervisor that was launched always runs.

## Main definitions

* `resolvePositive`, `resolveDurationSecsEnv` : a positive number, and the default in its place.
* `heartbeatInterval`, `heartbeatMaxFails`, `heartbeatProbeTimeout`, `heartbeatFreshnessWindow`,
  `socketWait` : the settings.
* `launchConfig` : the values that the heartbeat uses.
* `freshnessWindowIsInert`, `warnsInert` : when `launch` warns about the window.

## Main results

* `heartbeat_ne_off_of_reachable` : the heartbeat runs when the launch is over.
-/

namespace OxEmbed.Supervisor

open Startup Text

/-- `s.trim().parse()` of a type with the largest value `bound`, with a default for zero and for
all other values. -/
def resolvePositive (bound default : ℕ) : Option String → ℕ
  | none => default
  | some raw =>
    match parseUnsigned bound (trim raw) with
    | .ok 0 => default
    | .ok (n + 1) => n + 1
    | .error _ => default

/-- `resolve_duration_secs_env`, in seconds. -/
def resolveDurationSecsEnv (env : Env) (key : String) (default : ℕ) : ℕ :=
  resolvePositive u64Max default (env key)

/-- In seconds. -/
def heartbeatInterval (env : Env) : ℕ :=
  resolveDurationSecsEnv env "EMBED_WORKER_HEARTBEAT_INTERVAL_SECS" 30

def heartbeatMaxFails (env : Env) : ℕ :=
  resolvePositive u32Max 3 (env "EMBED_WORKER_HEARTBEAT_MAX_FAILS")

/-- In milliseconds. -/
def heartbeatProbeTimeout (env : Env) : ℕ :=
  resolvePositive u64Max 15000 (env "EMBED_WORKER_HEARTBEAT_PROBE_TIMEOUT_MS")

/-- `checked_mul(3)` of a duration in seconds, or the duration. -/
def defaultFreshnessWindow (interval : ℕ) : ℕ :=
  if interval * 3 ≤ u64Max then interval * 3 else interval

/-- In seconds. -/
def heartbeatFreshnessWindow (env : Env) : ℕ :=
  resolveDurationSecsEnv env "EMBED_WORKER_HEARTBEAT_FRESHNESS_WINDOW_SECS"
    (defaultFreshnessWindow (heartbeatInterval env))

/-- `freshness_window_is_inert`, of two durations in milliseconds. -/
def freshnessWindowIsInert (window probeTimeout : ℕ) : Bool := decide (window < probeTimeout)

/-- `launch` warns that the window is too short. -/
def warnsInert (env : Env) : Bool :=
  decide (heartbeatInterval env ≠ 0) &&
    freshnessWindowIsInert (heartbeatFreshnessWindow env * 1000) (heartbeatProbeTimeout env)

/-- The time in which the socket of a worker has to appear, in seconds. -/
def socketWait (env : Env) : ℕ :=
  resolveDurationSecsEnv env "EMBED_WORKER_SOCKET_WAIT_SECS" 60

section Positive

variable {bound default : ℕ}

/-- A setting is positive when its default is. -/
theorem resolvePositive_pos (hdefault : 0 < default) (raw : Option String) :
    0 < resolvePositive bound default raw := by
  cases raw with
  | none => exact hdefault
  | some s =>
    rw [resolvePositive]
    split
    · exact hdefault
    · exact Nat.succ_pos _
    · exact hdefault

theorem heartbeatInterval_pos (env : Env) : 0 < heartbeatInterval env :=
  resolvePositive_pos (Nat.succ_pos _) _

theorem heartbeatMaxFails_pos (env : Env) : 0 < heartbeatMaxFails env :=
  resolvePositive_pos (Nat.succ_pos _) _

end Positive

/-! ### The values that the heartbeat uses -/

/-- The values that `launch` resolves; the heartbeat compares with the milliseconds of the window
as a `u64`, which keeps the low 64 bits. -/
def launchConfig (env : Env) : Config where
  heartbeatInterval := heartbeatInterval env
  heartbeatMaxFails := heartbeatMaxFails env
  heartbeatFreshnessWindow := heartbeatFreshnessWindow env * 1000 % 2 ^ 64
  maxFails_pos := heartbeatMaxFails_pos env

example : launchConfig (fun _ => none) = defaultConfig := rfl

variable {cfg : Config} {s s' : State} {a : Action} {C : State → Action → Prop} {env : Env}

/-- **Step lemma.** The heartbeat is off only during the launch. -/
theorem launching_of_off (hinterval : cfg.heartbeatInterval ≠ 0)
    (h : s.heartbeat = .off → s.watchdog.Launching = true) (hstep : Trans cfg s a s') :
    s'.heartbeat = .off → s'.watchdog.Launching = true := by
  cases hstep with
  | launchSlot => exact fun _ => rfl
  | launchPid =>
    dsimp only
    rw [if_neg hinterval]
    exact nofun
  | skip | probe | connect | probeOk | probeFailed | judge | suppress | count | spend | noPid
  | loadPid | kill => exact nofun
  | reap hw | clearPid hw | clearSlot hw | backedOff hw | storePid hw | storeSlot hw | bump hw
  | forkFailed hw | fork hw | started hw | startFailed hw =>
    intro hoff
    have hlaunching := h hoff
    rw [hw] at hlaunching
    cases hlaunching
  | _ => exact h

/-- **The heartbeat runs when the launch is over**, whatever the environment holds. -/
theorem heartbeat_ne_off_of_reachable (hs : (machine (launchConfig env)).Reachable C s)
    (hlaunched : s.watchdog.Launching = false) : s.heartbeat ≠ .off := by
  intro hoff
  have hinterval : (launchConfig env).heartbeatInterval ≠ 0 := (heartbeatInterval_pos env).ne'
  have h : s.heartbeat = .off → s.watchdog.Launching = true := by
    refine hs.invariant ?_ fun _ _ _ h _ hstep => launching_of_off hinterval h (trans_of_step hstep)
    rintro _ ⟨pid, clock, -, rfl⟩ -
    rfl
  rw [h hoff] at hlaunched
  cases hlaunched

end OxEmbed.Supervisor

import Mathlib.Algebra.Order.Group.Nat
import OxEmbed.Supervisor.Bookkeeping

/-!
# The counter and the delays of the watchdog

What the watchdog has counted and how long it waits, from the sequence of the spawn attempts of a
run. A respawn stores the pid and the client of the new instance before it is counted, so in between
the counter is one behind the spawns that have succeeded. The backoff doubles with every attempt
that fails, and the count of a respawn resets it.

## Main definitions

* `respawns`, `failedSince` : the spawns of a run that have succeeded, and the attempts that have
  failed since the last one did.
* `WatchdogPhase.uncounted` : one while a respawn is not counted.
* `Watched` : the counter, the delays, and the pid and the client of the instance.

## Main results

* `nextBackoff_min_pow` : the delay after one more failure.
* `attempts_of_path` : the counter and the backoff in every state of a run.
* `watched_of_path` : the bookkeeping of the watchdog.
-/

namespace OxEmbed.Supervisor

/-! ### The spawn attempts of a run -/

/-- A spawn attempt of the respawn path succeeds. -/
def Action.respawned : Action → Bool
  | .started true => true
  | _ => false

/-- The number of respawns that have succeeded. -/
def respawns (as : List Action) : ℕ := as.countP Action.respawned

/-- The failed attempts since the last success, after one more action. -/
def Action.failed (k : ℕ) : Action → ℕ
  | .started true => 0
  | .started false | .fork none => k + 1
  | _ => k

/-- The number of attempts that have failed since the last success. -/
def failedSince (as : List Action) : ℕ := as.foldl Action.failed 0

/-- One while a spawn has succeeded and its respawn is not counted. -/
def WatchdogPhase.uncounted : WatchdogPhase → ℕ
  | .storePid _ | .storeSlot _ | .bump _ => 1
  | _ => 0

/-- Between the end of `clear_on_exit` and the success of a spawn. -/
def WatchdogPhase.Respawning : WatchdogPhase → Prop
  | .backingOff | .spawning | .starting _ => True
  | _ => False

/-- The bookkeeping of the watchdog after the actions of a run. -/
structure Watched (as : List Action) (s : State) : Prop where
  /-- The counter is the number of respawns, of which the last one may not be counted yet. -/
  restarts : s.restartCount + s.watchdog.uncounted = respawns as
  /-- The delay before an attempt is determined by the failures since the last success. -/
  delay : s.watchdog = .backingOff → s.backoff = min (2 * 2 ^ failedSince as) 60
  /-- A stored pid is that of the instance to which the stored client is connected. -/
  pid : ∀ i, s.clientSlot = some i → s.currentPid ≠ 0 → s.currentPid = (s.instances i).pid
  /-- While no worker has replaced the last one, there is no client. -/
  empty : s.watchdog.Respawning → s.clientSlot = none

/-! ### The counter and the backoff -/

/-- One more failure doubles the delay up to its maximum. -/
theorem nextBackoff_min_pow (k : ℕ) :
    nextBackoff (min (2 * 2 ^ k) 60) = min (2 * 2 ^ (k + 1)) 60 := by
  rw [nextBackoff, maxBackoff, Nat.pow_succ]
  omega

theorem respawns_append (as : List Action) (a : Action) :
    respawns (as ++ [a]) = respawns as + if a.respawned then 1 else 0 := by
  rw [respawns, List.countP_append, List.countP_singleton]
  rfl

theorem failedSince_append (as : List Action) (a : Action) :
    failedSince (as ++ [a]) = a.failed (failedSince as) := by
  rw [failedSince, List.foldl_append]
  rfl

/-- The counter and the backoff follow the spawn attempts. -/
structure Attempts (as : List Action) (s : State) : Prop where
  restarts : s.restartCount + s.watchdog.uncounted = respawns as
  backoff : s.backoff = min (2 * 2 ^ s.failures) 60
  /-- The failures are reset when the respawn is counted. -/
  failures : s.watchdog.uncounted = 0 → s.failures = failedSince as
  none_failed : s.watchdog.uncounted = 1 → failedSince as = 0

variable {cfg : Config} {s s₀ s' : State} {a : Action} {as : List Action}
  {C : State → Action → Prop}

/-- A step that is no attempt. -/
theorem Attempts.frame (h : Attempts as s) (ha : a.respawned = false)
    (ha' : ∀ k, a.failed k = k) (hw : s'.watchdog.uncounted = s.watchdog.uncounted)
    (hcount : s'.restartCount = s.restartCount) (hbackoff : s'.backoff = s.backoff)
    (hfailures : s'.failures = s.failures) : Attempts (as ++ [a]) s' := by
  have hrespawns : respawns (as ++ [a]) = respawns as := by
    rw [respawns_append, ha]
    rfl
  have hfailed : failedSince (as ++ [a]) = failedSince as := by rw [failedSince_append, ha']
  exact ⟨by rw [hcount, hw, hrespawns, h.restarts], by rw [hbackoff, hfailures, h.backoff],
    by rw [hw, hfailures, hfailed]; exact h.failures, by rw [hw, hfailed]; exact h.none_failed⟩

/-- An attempt fails. -/
theorem Attempts.fail (h : Attempts as s) {s₁ : State} (hw : s.watchdog.uncounted = 0)
    (ha : a.respawned = false) (ha' : ∀ k, a.failed k = k + 1)
    (hcount : s₁.restartCount = s.restartCount) (hbackoff : s₁.backoff = s.backoff)
    (hfailures : s₁.failures = s.failures) : Attempts (as ++ [a]) s₁.spawnFailed := by
  have hrestarts := h.restarts
  rw [hw] at hrestarts
  refine ⟨?_, ?_, fun _ => ?_, nofun⟩
  · rw [respawns_append, ha]
    show s₁.restartCount + 0 = respawns as + 0
    rw [hcount]
    exact hrestarts
  · show nextBackoff s₁.backoff = min (2 * 2 ^ (s₁.failures + 1)) 60
    rw [hbackoff, hfailures, h.backoff, nextBackoff_min_pow]
  · show s₁.failures + 1 = _
    rw [failedSince_append, ha', hfailures, h.failures hw]

/-- **Step lemma.** Every step keeps the counter and the backoff. -/
theorem Attempts.step (h : Attempts as s) (hstep : Trans cfg s a s') : Attempts (as ++ [a]) s' := by
  cases hstep with
  | launchSlot hw | launchPid hw | reap hw | clearPid hw | clearSlot hw | backedOff hw | storePid hw
  | storeSlot hw | fork hw =>
    exact h.frame rfl (fun _ => rfl) (by rw [hw]; rfl) rfl rfl rfl
  | @bump i hw =>
    have hone : s.watchdog.uncounted = 1 := by rw [hw]; rfl
    have hrestarts := h.restarts
    rw [hone] at hrestarts
    refine ⟨?_, rfl, fun _ => ?_, nofun⟩
    · rw [respawns_append]
      exact hrestarts
    · rw [failedSince_append]
      exact (h.none_failed hone).symm
  | forkFailed hw => exact h.fail (by rw [hw]; rfl) rfl (fun _ => rfl) rfl rfl rfl
  | startFailed hw => exact h.fail (by rw [hw]; rfl) rfl (fun _ => rfl) rfl rfl rfl
  | started hw =>
    have hrestarts := h.restarts
    rw [hw] at hrestarts
    refine ⟨?_, h.backoff, nofun, fun _ => ?_⟩
    · rw [respawns_append, ← hrestarts]
      rfl
    · rw [failedSince_append]
      rfl
  | _ => exact h.frame rfl (fun _ => rfl) rfl rfl rfl rfl

/-- **Run lemma.** The counter and the backoff in every state of a run. -/
theorem attempts_of_path (h₀ : (machine cfg).Init s₀) (hp : (machine cfg).Path C s₀ as s) :
    Attempts as s := by
  induction hp with
  | nil =>
    obtain ⟨pid, clock, -, rfl⟩ := h₀
    exact ⟨rfl, rfl, fun _ => rfl, nofun⟩
  | snoc _ _ hstep ih => exact ih.step (trans_of_step hstep)

/-! ### The pid and the client -/

/-- Where a pid and a client are both stored, they belong to one instance. -/
theorem pid_of_slot (h : Bookkeeping s) {i : ℕ} (hslot : s.clientSlot = some i)
    (hpid : s.currentPid ≠ 0) : s.currentPid = (s.instances i).pid := by
  have hslot' := h.slot.symm.trans hslot
  have hstored := h.pid
  cases hw : s.watchdog with
  | waiting j | clearPid j | bump j =>
    rw [hw] at hslot' hstored
    obtain rfl : j = i := Option.some.inj hslot'
    exact hstored
  | launchPid j | clearSlot j =>
    rw [hw] at hstored
    exact absurd hstored hpid
  | _ =>
    rw [hw] at hslot'
    cases hslot'

theorem slot_of_respawning (h : Bookkeeping s) (hw : s.watchdog.Respawning) :
    s.clientSlot = none := by
  rw [h.slot]
  cases hp : s.watchdog <;> rw [hp] at hw <;> first | rfl | exact hw.elim

/-- **The bookkeeping of the watchdog**, after every sequence of exits and spawn attempts and in
every state between two stores. -/
theorem watched_of_path (cfg : Config) (h₀ : (machine cfg).Init s₀)
    (hp : (machine cfg).Path (fun _ _ => True) s₀ as s) : Watched as s := by
  have h := attempts_of_path h₀ hp
  have hb : Bookkeeping s := bookkeeping_of_reachable ((Machine.Reachable.init h₀).path hp)
  refine ⟨h.restarts, fun hw => ?_, fun i => pid_of_slot hb, slot_of_respawning hb⟩
  rw [h.backoff, h.failures (by rw [hw]; rfl)]

/-- A worker exits and is respawned at once. It exits again, and five attempts fail, by a fork or by
a start. -/
def fiveFailures : List Action :=
  [.watchdog, .watchdog, .exit 0, .watchdog, .watchdog, .watchdog, .watchdog,
    .fork (some 8), .started true, .watchdog, .watchdog, .watchdog,
    .exit 1, .watchdog, .watchdog, .watchdog, .watchdog, .fork none,
    .watchdog, .fork (some 9), .started false, .watchdog, .fork none, .watchdog, .fork none,
    .watchdog, .fork none]

theorem watched_fiveFailures :
    ∃ s, (machine defaultConfig).runUnder (fun _ _ => True) (State.launched 7) fiveFailures =
        some s ∧ s.watchdog = .backingOff ∧ s.restartCount = 1 ∧ s.backoff = 60 ∧
      Watched fiveFailures s := by
  obtain ⟨s, hs, hw, hcount, hbackoff⟩ :
      ∃ s ∈ (machine defaultConfig).runUnder (fun _ _ => True) (State.launched 7) fiveFailures,
        s.watchdog = .backingOff ∧ s.restartCount = 1 ∧ s.backoff = 60 := by
    decide
  have h₀ : (machine defaultConfig).Init (State.launched 7) := ⟨7, 0, by decide, rfl⟩
  exact ⟨s, hs, hw, hcount, hbackoff, watched_of_path defaultConfig h₀ (.of_runUnder hs)⟩

end OxEmbed.Supervisor

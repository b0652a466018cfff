import OxEmbed.EvictablePool.ColdStart
import OxEmbed.Library.Pacing

/-!
# How soon an idle session is evicted

The eviction loop sweeps the slots at each tick of its interval. A sweep that begins when a slot
has been idle for `idle_secs` evicts it, unless a caller claims the slot first; the sweep before it
may have begun a moment too early. When each step of the loop that is due happens within some
latency, the session of a slot that no caller claims is freed within a tick and two sweeps,
whatever the callers do with the other slots.

## Main definitions

* `Timing`, `pacing`, `paced` : how long the steps of the eviction loop take.
* `Evicts`, `Unclaimed` : the conditions on the steps.
* `earlyEnd`, `evictionDeadline`, `OnTheWay` : the time by which a slot is evicted.
* `EvictsInTime` : idle sessions are evicted in time, and time passes.

## Main results

* `onTheWay_of_step` : a step of any thread empties the slot or keeps the bound.
* `evictsInTime` : an idle session is evicted in time, when eviction is enabled.
-/

namespace OxEmbed.EvictablePool

variable {n : ℕ} {T Tid : Type}

/-! ### The timed pool -/

/-- How long the steps of the eviction loop take, in seconds. -/
structure Timing where
  /-- The interval between two sweeps. -/
  tick : ℕ
  /-- What is due happens within this time. -/
  latency : ℕ

/-- The steps of a sweep that are left: at each slot it looks at the busy flag and at the age, and
enters the critical section. -/
def Phase.left : Phase n T → ℕ
  | .sweepBusy _ _ _ i => 3 * (n - i) + 1
  | .sweepAge _ _ _ i => 3 * (n - (i + 1)) + 3
  | .sweepLock _ _ _ i => 3 * (n - (i + 1)) + 2
  | _ => 0

/-- The steps of a sweep. -/
def sweepSteps (n : ℕ) : ℕ := 3 * n + 1

/-- How long the loop stays where it is: it waits for its next tick, or it is in a sweep. -/
def stay (timing : Timing) (p : Phase n T) : ℕ :=
  if p.left = 0 then timing.tick + timing.latency else timing.latency

variable [DecidableEq Tid]

/-- The pacing of the eviction loop; all other threads act at any time. -/
def pacing (sweeper : Tid) (timing : Timing) : Pacing (State n T Tid) (Action T Tid) where
  clock := State.clock
  starts _ a := a.thread = some sweeper
  earliest _ _ := 0
  latest s := some (stay timing (s.threads sweeper))

/-- The pool, as a timed machine. -/
def paced (n : ℕ) (T : Type) (idleSecs : ℕ) (sweeper : Tid) (timing : Timing) :
    Machine (Paced (State n T Tid)) (Action T Tid) :=
  (pacing sweeper timing).machine (machine n T Tid idleSecs)

/-- The thread `sweeper` runs the eviction loop: it sweeps, and does nothing else. -/
def Evicts (idleSecs : ℕ) (sweeper : Tid) (_ : Paced (State n T Tid)) (a : Action T Tid) : Prop :=
  match a with
  | .tick _ | .advance _ => True
  | .beginSweep t threshold => t = sweeper → threshold = idleSecs
  | .beginAcquire t | .factory t _ | .beginDrop t => t ≠ sweeper

/-- No caller has claimed the slot before the step. -/
def Unclaimed (idleSecs : ℕ) (sweeper : Tid) (i : Fin n) (t : Paced (State n T Tid))
    (a : Action T Tid) : Prop :=
  Evicts idleSecs sweeper t a ∧ (t.state.slots i).busy = false

/-- The time by which a sweep that began before the slot had been idle for `idle_secs` is over. -/
def earlyEnd (idleSecs : ℕ) (timing : Timing) (i : Fin n) (s : State n T Tid) : ℕ :=
  max s.clock ((s.slots i).lastUsed + idleSecs) + sweepSteps n * timing.latency

/-- The time by which a slot that no caller claims is evicted: after a sweep that began too early, a
tick and another sweep pass. -/
def evictionDeadline (idleSecs : ℕ) (timing : Timing) (i : Fin n) (s : State n T Tid) : ℕ :=
  earlyEnd idleSecs timing i s + (timing.tick + timing.latency) + sweepSteps n * timing.latency

variable {idleSecs : ℕ} {sweeper : Tid} {timing : Timing} {s s' : State n T Tid}
  {t t' : Paced (State n T Tid)} {a : Action T Tid} {as : List (Action T Tid)}
  {D : Paced (State n T Tid) → Action T Tid → Prop} {i : Fin n} {p p' : Phase n T}
  {used early since clock : ℕ}

theorem paced_cases (h : (paced n T idleSecs sweeper timing).step t a = some t') :
    step idleSecs t.state a = some t'.state ∧
      t'.since = if a.thread = some sweeper then t'.state.clock else t.since := by
  obtain ⟨-, s, hs, rfl, -⟩ := Pacing.step_eq_some_iff.1 h
  refine ⟨hs, ?_⟩
  simp only [Pacing.next, pacing, decide_eq_true_eq]

theorem reachable_of_paced (ht : (paced n T idleSecs sweeper timing).Reachable D t) :
    (machine n T Tid idleSecs).Reachable (fun _ _ => True) t.state :=
  Pacing.reachable (ht.strengthen fun _ _ _ _ _ _ => trivial)

theorem inTime_of_paced (ht : (paced n T idleSecs sweeper timing).Reachable D t) :
    t.state.clock ≤ t.since + stay timing (t.state.threads sweeper) :=
  Pacing.inTime_of_reachable ht _ rfl

theorem clock_le_of_trans (h : Trans idleSecs s a s') : s.clock ≤ s'.clock := by
  cases h with
  | tick d => exact Nat.le_add_right _ d
  | _ => exact Nat.le_refl _

theorem clock_of_advance {u : Tid} (h : Trans idleSecs s (.advance u) s') : s'.clock = s.clock := by
  cases h <;> rfl

theorem since_le_clock (ht : (paced n T idleSecs sweeper timing).Reachable D t) :
    t.since ≤ t.state.clock :=
  Pacing.since_le_of_reachable (fun _ _ _ h => clock_le_of_trans (trans_of_step h)) ht

/-! ### The eviction loop -/

/-- The loop waits for its tick or is in a sweep. -/
def Phase.Loops : Phase n T → Prop
  | .idle | .swept _ | .sweepBusy .. | .sweepAge .. | .sweepLock .. => True
  | _ => False

/-- The sweep has not passed the slot, and began when the slot had been idle for the threshold. -/
def Phase.Reaches (p : Phase n T) (i : Fin n) (idleSecs used : ℕ) : Prop :=
  match p with
  | .sweepBusy now threshold _ j => j ≤ i ∧ threshold = idleSecs ∧ used + idleSecs ≤ now
  | .sweepAge now threshold _ j | .sweepLock now threshold _ j =>
    j ≤ i ∧ threshold = idleSecs ∧ used + idleSecs ≤ now
  | _ => False

omit [DecidableEq Tid] in
theorem left_le_sweepSteps (p : Phase n T) : p.left ≤ sweepSteps n := by
  cases p <;> simp only [Phase.left, sweepSteps] <;> omega

/-- A poisoned slot is lost. -/
theorem lost_of_poisoned {C : State n T Tid → Action T Tid → Prop}
    (hs : (machine n T Tid idleSecs).Reachable C s) (h : (s.slots i).poisoned = true) :
    Lost s i := by
  revert h
  refine hs.invariant_of_reachable (P := fun s => (s.slots i).poisoned = true → Lost s i) ?_ ?_
  · rintro _ ⟨now, items, rfl⟩ h
    cases h
  · intro s a s' hs ih _ hstep h
    refine (lost_of_step_iff (inv_of_reachable hs) hstep i).2 ?_
    -- a step that changes a slot and does not poison it
    have hupdate {j : Fin n} {v : EvictableSlot T}
        (h : (Function.update s.slots j v i).poisoned = true)
        (hv : v.poisoned = (s.slots j).poisoned) : Lost s i ∨ LosesSlot s i a := by
      refine .inl (ih ?_)
      by_cases hij : i = j
      · subst hij
        rwa [Function.update_self, hv] at h
      · rwa [Function.update_of_ne hij] at h
    cases trans_of_step hstep with
    | @claimMissing u now j hu hb hnone =>
      by_cases hij : i = j
      · subst hij
        refine .inr ?_
        simp [LosesSlot, hu, hb, hnone]
      · exact .inl (ih (by simpa [hij] using h))
    | inspectEvicted | claimItem | storeNew | unclaim | drop | evict => exact hupdate h rfl
    | _ => exact .inl (ih h)

/-- The mutex of a free slot is not poisoned, so that a sweep can enter it. -/
theorem poisoned_of_free {C : State n T Tid → Action T Tid → Prop}
    (hs : (machine n T Tid idleSecs).Reachable C s) (hbusy : (s.slots i).busy = false) :
    (s.slots i).poisoned = false := by
  by_contra hpoisoned
  exact not_lost_of_free hbusy (lost_of_poisoned hs (Bool.eq_true_of_not_eq_false hpoisoned))

/-- A step of any thread empties an unclaimed slot or leaves it alone. -/
theorem slot_of_trans (hinv : Inv s) (hbusy : (s.slots i).busy = false)
    (h : Trans idleSecs s a s') : (s'.slots i).item = none ∨ s'.slots i = s.slots i := by
  have hupdate {j : Fin n} {v : EvictableSlot T} (hv : j = i → v.item = none) :
      (Function.update s.slots j v i).item = none ∨
        Function.update s.slots j v i = s.slots i := by
    by_cases hij : i = j
    · subst hij
      rw [Function.update_self]
      exact .inl (hv rfl)
    · exact .inr (Function.update_of_ne hij _ _)
  have howned {u : Tid} {p : Phase n T} (hu : s.threads u = p) (howns : p.Owns i) : False :=
    hinv.not_owns hbusy u (hu ▸ howns)
  cases h with
  | inspectEvicted _ _ hnone | claimMissing _ _ hnone => exact hupdate fun hij => hij ▸ hnone
  | claimItem | evict | storeNew => exact hupdate fun _ => rfl
  | unclaim hu | drop hu => exact hupdate fun hij => (howned hu hij).elim
  | _ => exact .inr rfl

/-- A step of a sweep leaves fewer steps; one that would pass the slot empties it. -/
theorem left_of_advance (hbusy : (s.slots i).busy = false)
    (hpoisoned : (s.slots i).poisoned = false) (hused : (s.slots i).lastUsed = used)
    (hloops : (s.threads sweeper).Loops) (h : Trans idleSecs s (.advance sweeper) s') :
    (s'.threads sweeper).left < (s.threads sweeper).left ∧
      ((s.threads sweeper).Reaches i idleSecs used →
        (s'.slots i).item = none ∨ (s'.threads sweeper).Reaches i idleSecs used) := by
  have hphase {p : Phase n T} (hp : s.threads sweeper = p) : p.Loops := hp ▸ hloops
  -- the sweep goes on to the next slot, when it is not at this one
  have hpass {j : Fin n} (hle : j ≤ i) (hne : j ≠ i) : (j : ℕ) + 1 ≤ i :=
    Fin.lt_def.1 (lt_of_le_of_ne hle hne)
  cases h with
  | @sweepBusy _ now threshold count j hp hj hb =>
    simp only [hp, State.setThread_threads, Function.update_self, Phase.left, Phase.Reaches]
    refine ⟨by omega, ?_⟩
    rintro ⟨hle, hthreshold, hold⟩
    refine .inr ⟨Nat.lt_of_le_of_ne hle ?_, hthreshold, hold⟩
    rintro rfl
    rw [hbusy] at hb
    cases hb
  | @sweepFree _ now threshold count j hp hj hb =>
    simp only [hp, State.setThread_threads, Function.update_self, Phase.left, Phase.Reaches]
    exact ⟨by omega, fun h => .inr h⟩
  | @sweepEnd _ now threshold count j hp hj =>
    simp only [hp, State.setThread_threads, Function.update_self, Phase.left, Phase.Reaches]
    refine ⟨Nat.succ_pos _, ?_⟩
    rintro ⟨hle, -, -⟩
    exact absurd (hj.trans hle) (Nat.not_le.2 i.isLt)
  | @sweepOld _ now threshold count j hp hold =>
    simp only [hp, State.setThread_threads, Function.update_self, Phase.left, Phase.Reaches]
    exact ⟨by omega, fun h => .inr h⟩
  | @sweepYoung _ now threshold count j hp hyoung =>
    simp only [hp, State.setThread_threads, Function.update_self, Phase.left, Phase.Reaches]
    refine ⟨by omega, ?_⟩
    rintro ⟨hle, rfl, hold⟩
    refine .inr ⟨hpass hle ?_, rfl, hold⟩
    rintro rfl
    rw [hused] at hyoung
    omega
  | @evict _ now threshold count j hp =>
    simp only [hp, State.setThread_threads, State.setThread_slots, State.recordEviction_slots,
      State.setSlot_slots, Function.update_self, Phase.left, Phase.Reaches]
    refine ⟨by omega, ?_⟩
    rintro ⟨hle, hthreshold, hold⟩
    by_cases hij : j = i
    · subst hij
      rw [Function.update_self]
      exact .inl rfl
    · exact .inr ⟨hpass hle hij, hthreshold, hold⟩
  | @sweepKeep _ now threshold count j hp hkeep =>
    simp only [hp, State.setThread_threads, State.setThread_slots, Function.update_self, Phase.left,
      Phase.Reaches]
    refine ⟨by omega, ?_⟩
    rintro ⟨hle, hthreshold, hold⟩
    by_cases hij : j = i
    · subst hij
      rw [hpoisoned, hbusy] at hkeep
      exact .inl (by simpa using hkeep)
    · exact .inr ⟨hpass hle hij, hthreshold, hold⟩
  | scanBusy hp | scanFree hp | scanEnd hp | inspectBusy hp | inspectEvicted hp | inspectItem hp
  | claimBusy hp | claimItem hp | claimMissing hp | storeNew hp | unclaim hp | drop hp =>
    exact (hphase hp).elim

/-- The loop only waits and sweeps. -/
theorem loops_of_trans (hloops : (s.threads sweeper).Loops) (hC : Evicts idleSecs sweeper t a)
    (ha : a.thread = some sweeper) (h : Trans idleSecs s a s') : (s'.threads sweeper).Loops := by
  cases h with
  | tick => cases ha
  | beginAcquire | factoryOk | factoryErr | factoryPanic | beginDrop =>
    exact absurd (Option.some.inj ha) hC
  | scanBusy hp | scanFree hp | scanEnd hp | inspectBusy hp | inspectEvicted hp | inspectItem hp
  | claimBusy hp | claimItem hp | claimMissing hp | storeNew hp | unclaim hp | drop hp =>
    obtain rfl := Option.some.inj ha
    rw [hp] at hloops
    exact hloops.elim
  | beginSweepOff | beginSweep | sweepBusy | sweepFree | sweepEnd | sweepOld | sweepYoung | evict
  | sweepKeep =>
    obtain rfl := Option.some.inj ha
    rw [State.setThread_threads, Function.update_self]
    trivial

theorem loops_of_reachable (ht : (paced n T idleSecs sweeper timing).Reachable
    (Evicts idleSecs sweeper) t) : (t.state.threads sweeper).Loops := by
  refine ht.invariant (P := fun t => (t.state.threads sweeper).Loops) ?_ fun t a t' h hC hstep => ?_
  · rintro ⟨_, since⟩ ⟨⟨now, items, rfl⟩, -⟩
    trivial
  · obtain ⟨hstep, -⟩ := paced_cases hstep
    by_cases ha : a.thread = some sweeper
    · exact loops_of_trans h hC ha (trans_of_step hstep)
    · rwa [threads_of_step hstep ha]

/-! ### The deadline of a slot -/

/-- When a slot that no caller claims is evicted: a sweep that began too early is over by the time
`early`, and the sweep that evicts the slot begins a tick later. -/
structure OnTheWay (timing : Timing) (idleSecs used early : ℕ) (i : Fin n) (p : Phase n T)
    (since : ℕ) : Prop where
  before : ¬ p.Reaches i idleSecs used → since + p.left * timing.latency ≤ early
  reaches : p.Reaches i idleSecs used → since + p.left * timing.latency ≤
    early + (timing.tick + timing.latency) + sweepSteps n * timing.latency

omit [DecidableEq Tid] in
theorem left_pos_of_reaches (h : p.Reaches i idleSecs used) : 0 < p.left := by
  cases p <;> simp only [Phase.Reaches] at h <;> simp only [Phase.left] <;> omega

omit [DecidableEq Tid] in
theorem left_of_outside (h : p.Outside) : p.left = 0 := by
  cases p <;> first | rfl | cases h

/-- The deadline has not passed. -/
theorem OnTheWay.clock_le (h : OnTheWay timing idleSecs used early i p since)
    (hin : clock ≤ since + stay timing p) :
    clock ≤ early + (timing.tick + timing.latency) + sweepSteps n * timing.latency := by
  by_cases hleft : p.left = 0
  · have hbound := h.before fun hreaches => (left_pos_of_reaches hreaches).ne' hleft
    rw [stay, if_pos hleft] at hin
    omega
  · have hstep : timing.latency ≤ p.left * timing.latency :=
      Nat.le_mul_of_pos_left _ (Nat.pos_of_ne_zero hleft)
    rw [stay, if_neg hleft] at hin
    by_cases hreaches : p.Reaches i idleSecs used
    · have hbound := h.reaches hreaches
      omega
    · have hbound := h.before hreaches
      omega

omit [DecidableEq Tid] in
/-- A step of a sweep. -/
theorem OnTheWay.advance (h : OnTheWay timing idleSecs used early i p since)
    (hin : clock ≤ since + stay timing p) (hlt : p'.left < p.left)
    (hreaches : p.Reaches i idleSecs used → p'.Reaches i idleSecs used) :
    OnTheWay timing idleSecs used early i p' clock := by
  rw [stay, if_neg (Nat.ne_zero_of_lt hlt)] at hin
  have hsteps : (p'.left + 1) * timing.latency ≤ p.left * timing.latency :=
    Nat.mul_le_mul_right _ hlt
  rw [Nat.succ_mul] at hsteps
  by_cases hr : p.Reaches i idleSecs used
  · have hbound := h.reaches hr
    exact ⟨fun hn => absurd (hreaches hr) hn, fun _ => by omega⟩
  · have hbound := h.before hr
    exact ⟨fun _ => by omega, fun _ => by omega⟩

/-- A sweep begins: it has begun too early, or it will evict the slot. -/
theorem OnTheWay.beginSweep (h : OnTheWay timing idleSecs used early i p since)
    (hleft : p.left = 0) (hin : clock ≤ since + stay timing p)
    (hearly : used + idleSecs + sweepSteps n * timing.latency ≤ early) :
    OnTheWay timing idleSecs used early i (.sweepBusy clock idleSecs 0 0 : Phase n T) clock := by
  have hbound := h.before fun hreaches => (left_pos_of_reaches hreaches).ne' hleft
  rw [stay, if_pos hleft] at hin
  refine ⟨fun hn => ?_, fun _ => ?_⟩
  · have hyoung : clock < used + idleSecs :=
      Nat.lt_of_not_le fun hold => hn ⟨Nat.zero_le _, rfl, hold⟩
    show clock + sweepSteps n * timing.latency ≤ early
    omega
  · show clock + sweepSteps n * timing.latency ≤ _
    omega

/-- **Step lemma.** A step of any thread empties the slot or keeps the bound. -/
theorem onTheWay_of_step (hidle : idleSecs ≠ 0)
    (hearly : used + idleSecs + sweepSteps n * timing.latency ≤ early)
    (ht : (paced n T idleSecs sweeper timing).Reachable (Evicts idleSecs sweeper) t)
    (hused : (t.state.slots i).lastUsed = used)
    (h : OnTheWay timing idleSecs used early i (t.state.threads sweeper) t.since)
    (hC : Unclaimed idleSecs sweeper i t a)
    (hstep : (paced n T idleSecs sweeper timing).step t a = some t') :
    (t'.state.slots i).item = none ∨
      OnTheWay timing idleSecs used early i (t'.state.threads sweeper) t'.since := by
  obtain ⟨s', since'⟩ := t'
  obtain ⟨hC, hbusy⟩ := hC
  obtain ⟨hact, hsince⟩ := paced_cases hstep
  dsimp only at hact hsince ⊢
  have htrans := trans_of_step hact
  have hin := inTime_of_paced ht
  by_cases ha : a.thread = some sweeper
  · rw [hsince, if_pos ha]
    cases a with
    | tick => cases ha
    | beginAcquire | factory | beginDrop => exact absurd (Option.some.inj ha) hC
    | beginSweep u threshold =>
      obtain rfl := Option.some.inj ha
      obtain rfl := hC rfl
      cases htrans with
      | beginSweepOff _ hzero => exact absurd hzero hidle
      | beginSweep hout =>
        rw [State.setThread_threads, Function.update_self]
        exact .inr (h.beginSweep (left_of_outside hout) hin hearly)
    | advance u =>
      obtain rfl := Option.some.inj ha
      have hpoisoned := poisoned_of_free (reachable_of_paced ht) hbusy
      obtain ⟨hlt, hreaches⟩ :=
        left_of_advance hbusy hpoisoned hused (loops_of_reachable ht) htrans
      rw [clock_of_advance htrans]
      by_cases hnone : (s'.slots i).item = none
      · exact .inl hnone
      · exact .inr (h.advance hin hlt fun hr => (hreaches hr).resolve_left hnone)
  · rw [threads_of_step hact ha, hsince, if_neg ha]
    exact .inr h

/-- The bound at the start. -/
theorem onTheWay_start (ht : (paced n T idleSecs sweeper timing).Reachable D t) :
    OnTheWay timing idleSecs (t.state.slots i).lastUsed (earlyEnd idleSecs timing i t.state) i
      (t.state.threads sweeper) t.since := by
  have hstart := since_le_clock ht
  have hleft : (t.state.threads sweeper).left * timing.latency ≤ sweepSteps n * timing.latency :=
    Nat.mul_le_mul_right _ (left_le_sweepSteps _)
  have hclock : t.state.clock + sweepSteps n * timing.latency ≤
      earlyEnd idleSecs timing i t.state :=
    Nat.add_le_add_right (Nat.le_max_left _ _) _
  exact ⟨fun _ => by omega, fun _ => by omega⟩

/-- **Run lemma.** A slot that no caller claims is empty after the deadline. -/
theorem evicted_of_lt (hidle : idleSecs ≠ 0)
    (ht : (paced n T idleSecs sweeper timing).Reachable (Evicts idleSecs sweeper) t)
    (hp : (paced n T idleSecs sweeper timing).Path (Unclaimed idleSecs sweeper i) t as t')
    (hlate : evictionDeadline idleSecs timing i t.state < t'.state.clock) :
    (t'.state.slots i).item = none := by
  have hearly : (t.state.slots i).lastUsed + idleSecs + sweepSteps n * timing.latency ≤
      earlyEnd idleSecs timing i t.state :=
    Nat.add_le_add_right (Nat.le_max_right _ _) _
  have hreach {as : List (Action T Tid)} {t₁ : Paced (State n T Tid)}
      (hp : (paced n T idleSecs sweeper timing).Path (Unclaimed idleSecs sweeper i) t as t₁) :
      (paced n T idleSecs sweeper timing).Reachable (Evicts idleSecs sweeper) t₁ :=
    ht.path (hp.mono fun _ _ hC => hC.1)
  have hdone : (t'.state.slots i).item = none ∨
      (t'.state.slots i).lastUsed = (t.state.slots i).lastUsed ∧
        OnTheWay timing idleSecs (t.state.slots i).lastUsed (earlyEnd idleSecs timing i t.state) i
          (t'.state.threads sweeper) t'.since := by
    clear hlate
    induction hp with
    | nil => exact .inr ⟨rfl, onTheWay_start ht⟩
    | @snoc t₁ t₂ a as hp hC h ih =>
      have hinv := inv_of_reachable (reachable_of_paced (hreach hp))
      rcases slot_of_trans hinv hC.2 (trans_of_step (paced_cases h).1) with hnone | hslot
      · exact .inl hnone
      · rw [hslot]
        rcases ih with hnone | ⟨hused, honway⟩
        · exact .inl hnone
        · have honway' := onTheWay_of_step hidle hearly (hreach hp) hused honway hC h
          rw [hslot] at honway'
          exact honway'.imp_right fun h => ⟨hused, h⟩
  refine hdone.resolve_right fun ⟨_, h⟩ => Nat.not_le_of_lt hlate ?_
  exact h.clock_le (inTime_of_paced (hreach hp))

/-! ### Time passes -/

/-- The actions by which time passes, or the loop goes on. -/
def goesOn (idleSecs : ℕ) (sweeper : Tid) : List (Action T Tid) :=
  [.tick 1, .beginSweep sweeper idleSecs, .advance sweeper]

omit [DecidableEq Tid] in
theorem evicts_of_mem_goesOn (h : a ∈ goesOn idleSecs sweeper) : Evicts idleSecs sweeper t a := by
  simp only [goesOn, List.mem_cons, List.not_mem_nil, or_false] at h
  rcases h with rfl | rfl | rfl
  · trivial
  · exact fun _ => rfl
  · trivial

/-- The loop begins a sweep, or the sweep goes on. -/
theorem exists_step_of_loops (h : (s.threads sweeper).Loops) :
    ∃ a ∈ goesOn idleSecs sweeper, a.thread = some sweeper ∧
      (step idleSecs s a).isSome = true := by
  have hadvance (hsome : (advance s sweeper).isSome = true) :
      ∃ a ∈ goesOn idleSecs sweeper, a.thread = some sweeper ∧
        (step idleSecs s a).isSome = true :=
    ⟨.advance sweeper, .tail _ (.tail _ (.head _)), rfl, hsome⟩
  have hbegin (hout : (s.threads sweeper).Outside = true) :
      ∃ a ∈ goesOn idleSecs sweeper, a.thread = some sweeper ∧
        (step idleSecs s a).isSome = true := by
    refine ⟨.beginSweep sweeper idleSecs, .tail _ (.head _), rfl, ?_⟩
    rw [step, if_pos hout]
    split <;> rfl
  cases hp : s.threads sweeper with
  | idle | swept => exact hbegin (by rw [hp]; rfl)
  | sweepBusy now threshold count j =>
    refine hadvance ?_
    simp only [advance, hp]
    split
    · split <;> rfl
    · rfl
  | sweepAge now threshold count j | sweepLock now threshold count j =>
    refine hadvance ?_
    simp only [advance, hp]
    split <;> rfl
  | _ =>
    rw [hp] at h
    exact h.elim

/-- **Time passes, or the loop goes on.** -/
theorem goesOn_of_reachable (ht : (paced n T idleSecs sweeper timing).Reachable
    (Evicts idleSecs sweeper) t) :
    ∃ a ∈ goesOn idleSecs sweeper, Evicts idleSecs sweeper t a ∧
      ((paced n T idleSecs sweeper timing).step t a).isSome = true := by
  have hstart := since_le_clock ht
  by_cases hlt : t.state.clock < t.since + stay timing (t.state.threads sweeper)
  · refine ⟨.tick 1, .head _, trivial, Option.isSome_iff_exists.2
      ⟨_, Pacing.step_eq_some_iff.2 ⟨hstart, _, rfl, rfl, fun d hd => ?_⟩⟩⟩
    obtain rfl := Option.some.inj hd
    exact hlt
  · obtain ⟨a, hmem, ha, hstep⟩ : ∃ a ∈ goesOn idleSecs sweeper, a.thread = some sweeper ∧
        (step idleSecs t.state a).isSome = true :=
      exists_step_of_loops (loops_of_reachable ht)
    obtain ⟨s', hs'⟩ := Option.isSome_iff_exists.1 hstep
    refine ⟨a, hmem, evicts_of_mem_goesOn hmem, Option.isSome_iff_exists.2
      ⟨_, Pacing.step_eq_some_iff.2 ⟨hstart, s', hs', rfl, fun d _ => ?_⟩⟩⟩
    simp only [Pacing.next, pacing, ha, decide_true, if_true]
    exact Nat.le_add_right _ _

/-! ### Idle sessions are evicted in time -/

/-- With eviction disabled no step removes an item. -/
theorem not_removesItem_of_disabled {C : State n T Tid → Action T Tid → Prop}
    (hs : (machine n T Tid 0).Reachable C s) : ¬ RemovesItem s i a := by
  intro h
  cases a with
  | advance u =>
    have hsweep := not_sweeping_of_reachable hs u
    cases hp : s.threads u with
    | sweepLock =>
      rw [hp] at hsweep
      exact hsweep trivial
    | _ => simp only [RemovesItem, hp] at h
  | _ => exact h

/-- Idle sessions are evicted in time, and time passes. -/
structure EvictsInTime (n : ℕ) (T : Type) (idleSecs : ℕ) (sweeper : Tid) (timing : Timing) :
    Prop where
  /-- Time passes, or the loop goes on. -/
  proceeds : ∀ t, (paced n T idleSecs sweeper timing).Reachable (Evicts idleSecs sweeper) t →
    ∃ a ∈ goesOn idleSecs sweeper, Evicts idleSecs sweeper t a ∧
      ((paced n T idleSecs sweeper timing).step t a).isSome = true
  /-- With eviction enabled, the session of a slot that no caller claims is freed in time. -/
  evicted : idleSecs ≠ 0 → ∀ i t as t',
    (paced n T idleSecs sweeper timing).Reachable (Evicts idleSecs sweeper) t →
    (paced n T idleSecs sweeper timing).Path (Unclaimed idleSecs sweeper i) t as t' →
    evictionDeadline idleSecs timing i t.state < t'.state.clock → (t'.state.slots i).item = none
  /-- With eviction disabled no session is freed. -/
  disabled : idleSecs = 0 → ∀ t,
    (paced n T idleSecs sweeper timing).Reachable (Evicts idleSecs sweeper) t →
    ∀ i a, ¬ RemovesItem t.state i a

/-- **Idle sessions are evicted in time**, in every order of the steps of the callers, of the
eviction loop and of the clock. -/
theorem evictsInTime (n : ℕ) (T : Type) (idleSecs : ℕ) (sweeper : Tid) (timing : Timing) :
    EvictsInTime n T idleSecs sweeper timing := by
  refine ⟨fun _ => goesOn_of_reachable, fun hidle _ _ _ _ ht hp hlate =>
    evicted_of_lt hidle ht hp hlate, ?_⟩
  rintro rfl t ht i a
  exact not_removesItem_of_disabled (reachable_of_paced ht)

end OxEmbed.EvictablePool

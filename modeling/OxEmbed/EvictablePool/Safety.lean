import OxEmbed.EvictablePool.Ownership

/-!
# Panics, leaked slots and exclusivity

The two contracts of the evictable pool on every schedule of `acquire` calls, sweeps and guard
drops.

*No panic and no leak.* `acquire` inspects the item in one critical section and takes it in a
second one. A sweep between the two leaves the second one without an item: its `expect` panics
with the busy flag set, and nobody will clear the flag. `leak` is the shortest such schedule.
Every schedule that respects the window is free of it, and a sweep that does not respect the
window is one step of the inspecting thread away from it.

*Exclusivity.* Two guards never hold one slot, a guard holds the item last stored in its slot and
returns it there, and a sweep never touches the slot of a live guard. An evicted slot is
re-initialised by one thread at a time; a second thread calls the factory for the same eviction
only after the first call failed, which `retry` shows to happen.

## Main definitions

* `WillClear` : the owner of a slot can always move on, and each of its moves brings it closer to
  clearing the busy flag.
* `PanicFreeNoLeak`, `Exclusive` : the two contracts.

## Main results

* `panicFreeNoLeak_of_windowRespected` : no panic and no leak on the schedules that respect the
  window, and a panic one step away on the others.
* `exclusive_of_reachable` : exclusivity on every schedule.
-/

namespace OxEmbed.EvictablePool

variable {n : ℕ} {T Tid : Type} [DecidableEq Tid] {idleSecs : ℕ}
variable {s s' : State n T Tid} {a : Action T Tid}

/-! ### No panic and no leak -/

/-- The thread that performs an action. -/
def Action.thread : Action T Tid → Option Tid
  | .tick _ => none
  | .beginAcquire t | .beginSweep t _ | .factory t _ | .beginDrop t | .advance t => some t

/-- How many of its own steps the owner of a slot is away from clearing the busy flag. -/
def Phase.stepsToClear : Phase n T → ℕ
  | .reinit .. => 4
  | .storeNew .. => 3
  | .guard .. => 2
  | .dropping .. | .unclaim .. => 1
  | _ => 0

/-- Thread `t` will clear the busy flag of slot `i`: it has an enabled step, each of its steps
clears the flag or brings it closer to doing so, and no other thread's step affects that. -/
structure WillClear (idleSecs : ℕ) (s : State n T Tid) (t : Tid) (i : Fin n) : Prop where
  enabled : ∃ a s', a.thread = some t ∧ FactoryTotal s a ∧ step idleSecs s a = some s'
  progress : ∀ a s', a.thread = some t → FactoryTotal s a → step idleSecs s a = some s' →
    (s'.slots i).busy = false ∨
      (s'.threads t).Owns i ∧ (s'.threads t).stepsToClear < (s.threads t).stepsToClear
  frame : ∀ a s', a.thread ≠ some t → step idleSecs s a = some s' → s'.threads t = s.threads t

/-- No `acquire` has reached a slot-item-missing `expect`, and every busy slot has exactly one
owner, which will clear its flag. -/
structure PanicFreeNoLeak (idleSecs : ℕ) (s : State n T Tid) : Prop where
  noBug : ∀ t, s.threads t ≠ .panicked true
  owner : ∀ i, (s.slots i).busy = true → ∃! t, (s.threads t).Owns i
  clears : ∀ t i, (s.threads t).Owns i → WillClear idleSecs s t i

/-- A step moves the thread that performs it and no other. -/
theorem threads_of_step (h : step idleSecs s a = some s') {t : Tid} (ht : a.thread ≠ some t) :
    s'.threads t = s.threads t := by
  have hne {u : Tid} {p : Phase n T} (hu : some u ≠ some t) :
      Function.update s.threads u p t = s.threads t :=
    Function.update_of_ne (fun e => hu (congrArg some e.symm)) _ _
  cases trans_of_step h with
  | tick => rfl
  | _ => exact hne ht

theorem willClear_of_owns {t : Tid} {i : Fin n} (ht : (s.threads t).Owns i) :
    WillClear idleSecs s t i := by
  refine ⟨?_, fun a s' ha hF hstep => ?_, fun a s' ha hstep => threads_of_step hstep ha⟩
  · cases hp : s.threads t <;> rw [hp] at ht <;> simp only [Phase.Owns] at ht
    case reinit => exact ⟨.factory t (.err ""), _, rfl, trivial, by simp only [step, hp]; rfl⟩
    case guard => exact ⟨.beginDrop t, _, rfl, trivial, by simp only [step, hp]; rfl⟩
    all_goals exact ⟨.advance t, _, rfl, trivial, by simp only [step, advance, hp]; rfl⟩
  · cases trans_of_step hstep with
    | tick => cases ha
    | factoryPanic => exact hF.elim
    | beginAcquire h | beginSweepOff h | beginSweep h =>
      obtain rfl := Option.some.inj ha
      revert h ht
      cases s.threads _ <;> simp [Phase.Outside, Phase.Owns]
    | factoryOk h | factoryErr h | beginDrop h | storeNew h | unclaim h | drop h =>
      obtain rfl := Option.some.inj ha
      rw [h] at ht ⊢
      obtain rfl := ht
      simp [Phase.Owns, Phase.stepsToClear]
    | _ h =>
      obtain rfl := Option.some.inj ha
      rw [h] at ht
      exact ht.elim

/-- A sweep that removes an item sees the slot free, and leaves it free and empty. -/
theorem free_of_removesItem {i : Fin n} (hi : RemovesItem s i a)
    (hstep : step idleSecs s a = some s') :
    (s'.slots i).item = none ∧ (s'.slots i).busy = false ∧
      ∀ t, (s.threads t).Claims i → s'.threads t = s.threads t := by
  cases trans_of_step hstep with
  | @evict u now threshold count j hu hp hj hb =>
    simp only [RemovesItem, hu] at hi
    obtain ⟨rfl, -, -, -⟩ := hi
    refine ⟨by simp, by simp [hb], fun t ht => ?_⟩
    have htu : t ≠ u := by
      rintro rfl
      rw [hu] at ht
      exact ht
    simp [htu]
  | sweepKeep hu h =>
    simp only [RemovesItem, hu] at hi
    obtain ⟨rfl, hp, hitem, hb⟩ := hi
    rcases h with h | h | h
    · simp [h] at hp
    · simp [h] at hitem
    · simp [h] at hb
  | tick | beginAcquire | beginSweepOff | beginSweep | factoryOk | factoryErr | factoryPanic
  | beginDrop => exact hi.elim
  | _ hu => simp only [RemovesItem, hu] at hi

/-- On the schedules that respect the window no `acquire` panics and no slot leaks; and whenever a
sweep does not respect it, the thread whose window it hits panics at its next step. -/
theorem panicFreeNoLeak_of_windowRespected (n : ℕ) (T Tid : Type) [DecidableEq Tid]
    (idleSecs : ℕ) (s : State n T Tid)
    (hs : (machine n T Tid idleSecs).Reachable
      (fun s a => FactoryTotal s a ∧ WindowRespected s a) s) :
    PanicFreeNoLeak idleSecs s ∧
    ∀ a s', FactoryTotal s a → step idleSecs s a = some s' →
      (WindowRespected s a ↔
        ∀ t s'', step idleSecs s' (.advance t) = some s'' → s''.threads t ≠ .panicked true) := by
  have hinv := inv_of_reachable hs
  have hacc := accounted_of_reachable hs
  refine ⟨⟨hacc.noBug, fun i hb => ?_, fun t i ht => willClear_of_owns ht⟩,
    fun a s' hF hstep => ⟨fun hW t s'' h'' => ?_, fun hsafe i hi t ht => ?_⟩⟩
  · obtain ⟨t, ht⟩ := hacc.owned i hb
    exact ⟨t, ht, fun t' ht' => hinv.exclusive t' t i ht' ht⟩
  · have hinv' := inv_of_step hinv hstep
    have hacc' := accounted_of_step hinv hacc hF hW hstep
    intro hp
    cases trans_of_step h'' <;> simp only [State.setThread_threads, Function.update_self,
      reduceCtorEq] at hp
    case claimMissing now i hb hi ht =>
      have hclaims : (s'.threads t).Claims i := by rw [ht]; rfl
      exact hacc'.not_claim hi (hinv'.not_holds_of_free hb) t hclaims
  · -- the sweep leaves the slot free and empty, and `t` still about to claim it
    obtain ⟨hitem, hbusy, hkeep⟩ := free_of_removesItem hi hstep
    have ht' := hkeep t ht
    cases hp : s.threads t <;> rw [hp] at ht <;> simp only [Phase.Claims] at ht
    subst ht
    rw [hp] at ht'
    refine hsafe t _ (by simp only [step, advance, ht', hbusy, hitem]; rfl) ?_
    simp

/-- A pool of one slot, whose item is `7`. -/
def onePool : State 1 ℕ Bool := fromItems 0 fun _ => 7

/-- A sweep evicts the item. -/
def evictItem : List (Action ℕ Bool) :=
  [.tick 1, .beginSweep true 1, .advance true, .advance true, .advance true, .advance true]

/-- The item is evicted, the factory fails once, and a second `acquire` re-initialises the slot. -/
def coldStart : List (Action ℕ Bool) :=
  evictItem ++ [.beginAcquire false, .advance false, .advance false,
    .factory false (.err "no memory"), .advance false, .beginAcquire false, .advance false,
    .advance false, .factory false (.ok 8), .advance false]

theorem panicFreeNoLeak_coldStart :
    ∃ s ∈ (machine 1 ℕ Bool 1).runUnder (fun s a => FactoryTotal s a ∧ WindowRespected s a)
      onePool coldStart, s.threads false = .guard 0 8 ∧ PanicFreeNoLeak 1 s := by
  obtain ⟨s, hs, hguard⟩ : ∃ s ∈ (machine 1 ℕ Bool 1).runUnder
      (fun s a => FactoryTotal s a ∧ WindowRespected s a) onePool coldStart,
      s.threads false = .guard 0 8 := by decide
  exact ⟨s, hs, hguard,
    (panicFreeNoLeak_of_windowRespected 1 ℕ Bool 1 s (.of_runUnder ⟨0, fun _ => 7, rfl⟩ hs)).1⟩

/-- Thread `false` sees the item, thread `true` evicts it, thread `false` goes on to take it. -/
def leak : List (Action ℕ Bool) :=
  [.beginAcquire false, .advance false, .advance false, .tick 1, .beginSweep true 1,
    .advance true, .advance true, .advance true, .advance false]

/-- A sweep between the two critical sections of `acquire` makes the second one panic, and leaves
the slot busy without an owner. -/
theorem not_panicFreeNoLeak_leak :
    ∃ s, (machine 1 ℕ Bool 1).Reachable FactoryTotal s ∧ s.threads false = .panicked true ∧
      (s.slots 0).busy = true ∧ (∀ t, ¬ (s.threads t).Owns 0) ∧ ¬ PanicFreeNoLeak 1 s := by
  obtain ⟨s, hs, hpanic, hbusy, howner⟩ :
      ∃ s ∈ (machine 1 ℕ Bool 1).runUnder FactoryTotal onePool leak,
        s.threads false = .panicked true ∧ (s.slots 0).busy = true ∧
          ∀ t, ¬ (s.threads t).Owns 0 := by decide
  exact ⟨s, .of_runUnder ⟨0, fun _ => 7, rfl⟩ hs, hpanic, hbusy, howner,
    fun h => h.noBug false hpanic⟩

/-! ### Exclusivity -/

/-- The exclusivity contract. -/
structure Exclusive (idleSecs : ℕ) (s : State n T Tid) : Prop where
  /-- No two live guards hold one slot. -/
  guard : ∀ t t' i x x', (s.threads t).Holds i x → (s.threads t').Holds i x' → t = t'
  /-- The item of a guard is the one last stored in its slot. -/
  item : ∀ t i x, (s.threads t).Holds i x → s.lastStored i = x
  /-- As long as a guard is live no step changes its slot (no sweep removes an item, no `acquire`
  claims it); the step that ends it puts the item back into the slot and leaves the slot free. -/
  returned : ∀ t i x a s', (s.threads t).Holds i x → step idleSecs s a = some s' →
    ((s'.threads t).Holds i x ∧ s'.slots i = s.slots i) ∨
      ((s'.slots i).item = some x ∧ (s'.slots i).busy = false ∧ s'.lastStored i = x ∧
        ∀ t', ¬ (s'.threads t').Owns i)
  /-- No two threads run the factory for one slot at the same time. -/
  reinit : ∀ t t' now now' i, s.threads t = .reinit now i → s.threads t' = .reinit now' i → t = t'
  /-- At a factory call, all earlier calls for the same eviction have failed. -/
  retry : ∀ t now i s', s.threads t = .inspect now i → step idleSecs s (.advance t) = some s' →
    s'.threads t = .reinit now i → (s.coldCalls i).length = s.coldFailures i
  /-- Of the factory calls for one eviction at most one has not failed. -/
  calls : ∀ i, (s.coldCalls i).length ≤ s.coldFailures i + 1

/-- No step but the drop of the guard changes the slot of a live guard. -/
theorem returned_of_inv (hinv : Inv s) {t : Tid} {i : Fin n} {x : T}
    (ht : (s.threads t).Holds i x) (hstep : step idleSecs s a = some s') :
    ((s'.threads t).Holds i x ∧ s'.slots i = s.slots i) ∨
      ((s'.slots i).item = some x ∧ (s'.slots i).busy = false ∧ s'.lastStored i = x ∧
        ∀ t', ¬ (s'.threads t').Owns i) := by
  have hinv' := inv_of_step hinv hstep
  have hbusy := hinv.busy ht.owns
  -- a step of another thread that changes slot `j` changes a free slot or one that thread owns
  have hother {u : Tid} {j : Fin n} (hut : u ≠ t)
      (hj : (s.slots j).busy = false ∨ (s.threads u).Owns j) : i ≠ j := by
    rintro rfl
    rcases hj with hb | hown
    · simp [hbusy] at hb
    · exact hut (hinv.exclusive u t i hown ht.owns)
  by_cases hat : a.thread = some t
  · cases trans_of_step hstep with
    | tick => cases hat
    | @beginDrop u j y hu =>
      obtain rfl := Option.some.inj hat
      rw [hu] at ht
      exact Or.inl ⟨by simpa [Phase.Holds] using ht, rfl⟩
    | @drop u now j y hu =>
      obtain rfl := Option.some.inj hat
      rw [hu] at ht
      obtain ⟨rfl, rfl⟩ := ht
      exact Or.inr ⟨by simp, by simp, by simp, hinv'.not_owns (by simp)⟩
    | beginAcquire hu | beginSweepOff hu | beginSweep hu =>
      obtain rfl := Option.some.inj hat
      revert hu ht
      cases s.threads _ <;> simp [Phase.Outside, Phase.Holds]
    | _ hu =>
      obtain rfl := Option.some.inj hat
      rw [hu] at ht
      exact ht.elim
  · refine Or.inl ⟨by rwa [threads_of_step hstep hat], ?_⟩
    cases trans_of_step hstep with
    | inspectEvicted hu hb | claimItem hu hb | claimMissing hu hb | evict hu _ _ hb =>
      simp [hother (fun e => hat (congrArg some e)) (Or.inl hb)]
    | @storeNew u now j y hu =>
      have hown : (s.threads u).Owns j := by rw [hu]; rfl
      simp [hother (fun e => hat (congrArg some e)) (Or.inr hown)]
    | @unclaim u j e hu =>
      have hown : (s.threads u).Owns j := by rw [hu]; rfl
      simp [hother (fun e => hat (congrArg some e)) (Or.inr hown)]
    | @drop u now j y hu =>
      have hown : (s.threads u).Owns j := by rw [hu]; rfl
      simp [hother (fun e => hat (congrArg some e)) (Or.inr hown)]
    | _ => rfl

/-- **Exclusivity.** The contract holds on every schedule, whatever the factory does. -/
theorem exclusive_of_reachable (n : ℕ) (T Tid : Type) [DecidableEq Tid] (idleSecs : ℕ)
    (C : State n T Tid → Action T Tid → Prop) (s : State n T Tid)
    (hs : (machine n T Tid idleSecs).Reachable C s) : Exclusive idleSecs s := by
  have hinv := inv_of_reachable hs
  refine ⟨fun t t' i x x' h h' => hinv.exclusive t t' i h.owns h'.owns, fun t i x h => ?_,
    fun t i x a s' h hstep => returned_of_inv hinv h hstep, fun t t' now now' i h h' => ?_,
    fun t now i s' ht hstep hre => ?_, fun i => (hinv.slot i).calls⟩
  · have hok := hinv.thread t
    cases hp : s.threads t <;> rw [hp] at h hok <;> simp only [Phase.Holds] at h
    · exact h.1 ▸ h.2 ▸ hok.2
    · exact h.1 ▸ h.2 ▸ hok.2
  · exact hinv.exclusive t t' i (by rw [h]; rfl) (by rw [h']; rfl)
  · have hfree : (s.slots i).busy = false ∧ (s.slots i).item = none := by
      cases trans_of_step hstep with
      | inspectEvicted ht' hb hi =>
        obtain ⟨-, rfl⟩ := Phase.inspect.inj (ht.symm.trans ht')
        exact ⟨hb, hi⟩
      | inspectBusy ht' | inspectItem ht' => simp at hre
      | _ ht' => simp [ht] at ht'
    exact (hinv.slot i).retry hfree.1 hfree.2

theorem exclusive_coldStart :
    ∃ s ∈ (machine 1 ℕ Bool 1).runUnder FactoryTotal onePool coldStart,
      s.threads false = .guard 0 8 ∧ Exclusive 1 s := by
  obtain ⟨s, hs, hguard⟩ : ∃ s ∈ (machine 1 ℕ Bool 1).runUnder FactoryTotal onePool coldStart,
      s.threads false = .guard 0 8 := by decide
  exact ⟨s, hs, hguard,
    exclusive_of_reachable 1 ℕ Bool 1 FactoryTotal s (.of_runUnder ⟨0, fun _ => 7, rfl⟩ hs)⟩

/-! The schedule on which two racing threads call the factory for one eviction. -/

/-- Both threads pass the first busy check of an evicted slot. -/
def race : List (Action ℕ Bool) :=
  evictItem ++ [.beginAcquire false, .advance false, .beginAcquire true, .advance true]

/-- Thread `false` claims the slot, its factory call fails, and thread `true` goes on. -/
def retry : List (Action ℕ Bool) :=
  [.advance false, .factory false (.err "no memory"), .advance false, .advance true]

/-- Two threads that race on one evicted slot, both past its first busy check, can both call the
factory for the same eviction: the second one after the call of the first one failed. -/
theorem both_call_factory :
    ∃ s s', (machine 1 ℕ Bool 1).Reachable FactoryTotal s ∧
      s.threads false = .inspect 1 0 ∧ s.threads true = .inspect 1 0 ∧
      s.slots 0 = ⟨none, false, false, 0⟩ ∧ s.coldCalls 0 = [] ∧
      (machine 1 ℕ Bool 1).Path FactoryTotal s retry s' ∧ s'.coldCalls 0 = [false, true] := by
  obtain ⟨s, hs, hfalse, htrue, hslot, hcalls, s', hs', hboth⟩ :
      ∃ s ∈ (machine 1 ℕ Bool 1).runUnder FactoryTotal onePool race,
        s.threads false = .inspect 1 0 ∧ s.threads true = .inspect 1 0 ∧
        s.slots 0 = ⟨none, false, false, 0⟩ ∧ s.coldCalls 0 = [] ∧
        ∃ s' ∈ (machine 1 ℕ Bool 1).runUnder FactoryTotal s retry,
          s'.coldCalls 0 = [false, true] := by decide
  exact ⟨s, s', .of_runUnder ⟨0, fun _ => 7, rfl⟩ hs, hfalse, htrue, hslot, hcalls,
    .of_runUnder hs', hboth⟩

end OxEmbed.EvictablePool

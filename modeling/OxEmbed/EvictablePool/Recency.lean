import OxEmbed.EvictablePool.Safety

/-!
# What a sweep evicts

`evict_idle` loads the time of the last use of a slot, and enters the critical section that removes
the item later. The critical section looks at the busy flag again, but not at the time. A guard that
is dropped in between refreshes the time and clears the flag, and the sweep then removes an item
that was just used. So a sweep evicts by recency as long as no guard of a slot is dropped between
the look at its age and the critical section.

The age is a saturating difference, so a threshold of zero accepts a slot that was used after the
sweep began.

## Main definitions

* `RespectsRecency` : a sweep removes only items that were idle for the threshold, and none that was
  returned after the sweep looked at its age.
* `Undisturbed` : the condition on the steps.
* `Looked`, `Later` : the invariants.

## Main results

* `looked_of_reachable` : the invariant of the runs that meet the condition.
* `respectsRecency_of_undisturbed` : when sweeps respect recency, and when they do not.
* `not_respectsRecency_returned` : a sweep that evicts an item that was just returned.
-/

namespace OxEmbed.EvictablePool

variable {n : ℕ} {T Tid : Type} [DecidableEq Tid]

/-! ### The property and the condition -/

/-- The sweeps of the runs whose steps meet `C` evict by recency. -/
structure RespectsRecency (idleSecs : ℕ) (C : State n T Tid → Action T Tid → Prop) : Prop where
  /-- When an item is removed, its last use is at least the threshold before the sweep began. -/
  aged : ∀ s t now threshold count i, (machine n T Tid idleSecs).Reachable C s →
    s.threads t = .sweepLock now threshold count i → C s (.advance t) →
    RemovesItem s i (.advance t) → (s.slots i).lastUsed + threshold ≤ now
  /-- No item is removed that was returned after the sweep looked at its age. -/
  returned : ∀ s s₁ s₂ as t t' now threshold count i now' x,
    (machine n T Tid idleSecs).Reachable C s → s.threads t = .sweepLock now threshold count i →
    s.threads t' = .dropping now' i x → C s (.advance t') →
    step idleSecs s (.advance t') = some s₁ → (machine n T Tid idleSecs).Path C s₁ as s₂ →
    .advance t ∉ as → C s₂ (.advance t) → ¬ RemovesItem s₂ i (.advance t)

/-- The phases of a sweep that has looked at the age of slot `i` and not entered its critical
section. -/
def Phase.Looked (p : Phase n T) (i : Fin n) : Prop :=
  match p with
  | .sweepLock _ _ _ j => j = i
  | _ => False

/-- No guard of a slot is dropped between the look of a sweep at its age and the critical section,
and a sweep with threshold zero does not look at a slot that was used after it began. -/
def Undisturbed (s : State n T Tid) : Action T Tid → Prop
  | .advance t =>
    match s.threads t with
    | .dropping _ i _ => ∀ t', ¬ (s.threads t').Looked i
    | .sweepAge now threshold _ i => 0 < threshold ∨ (s.slots i).lastUsed ≤ now
    | _ => True
  | _ => True

/-! ### The age of a slot that a sweep has looked at -/

/-- A slot that a sweep has looked at is old, or it has nothing to remove. -/
def Looked (s : State n T Tid) : Prop :=
  ∀ t now threshold count i, s.threads t = .sweepLock now threshold count i →
    (s.slots i).busy = true ∨ (s.slots i).item = none ∨ (s.slots i).lastUsed + threshold ≤ now

variable {idleSecs : ℕ} {s s' : State n T Tid} {a : Action T Tid}
  {C : State n T Tid → Action T Tid → Prop}

/-- A step of thread `t` to a phase that is no look. -/
theorem Looked.setThread (h : Looked s) {t : Tid} {p : Phase n T}
    (hp : ∀ i, ¬ p.Looked i) : Looked (s.setThread t p) := by
  intro u now threshold count i hu
  rw [State.setThread_threads, Function.update_apply] at hu
  split at hu
  · subst hu
    exact absurd rfl (hp i)
  · exact h u now threshold count i hu

/-- A step of thread `t` to a phase that is no look, which leaves nothing to remove in slot `i`. -/
theorem Looked.of_slot_change (h : Looked s) {t : Tid} {i : Fin n} {p : Phase n T}
    {v : EvictableSlot T} (hslots : s'.slots = Function.update s.slots i v)
    (hthreads : s'.threads = Function.update s.threads t p) (hv : v.busy = true ∨ v.item = none)
    (hp : ∀ i, ¬ p.Looked i) : Looked s' := by
  intro u now threshold count j hu
  rw [hthreads] at hu
  have hold := h.setThread (t := t) hp u now threshold count j hu
  rw [hslots, Function.update_apply]
  split
  · exact hv.imp_right .inl
  · exact hold

/-- **Step lemma.** A step that meets the condition keeps the invariant. -/
theorem looked_of_step (hinv : Inv s) (h : Looked s) (hC : Undisturbed s a)
    (hstep : step idleSecs s a = some s') : Looked s' := by
  cases trans_of_step hstep with
  | tick => exact h
  | beginAcquire | beginSweepOff | beginSweep | factoryOk | factoryPanic | beginDrop | scanBusy
  | scanFree | scanEnd | inspectBusy | inspectItem | claimBusy | sweepBusy | sweepFree | sweepEnd
  | sweepYoung | sweepKeep => exact h.setThread fun _ => id
  | @factoryErr t now i e => exact h.setThread (t := t) (p := .unclaim i e) fun _ => id
  | inspectEvicted | claimItem | claimMissing =>
    exact h.of_slot_change rfl rfl (.inl rfl) fun _ => id
  | storeNew | evict => exact h.of_slot_change rfl rfl (.inr rfl) fun _ => id
  | @unclaim t i e ht =>
    have hitem := (hinv.slot i).empty (hinv.busy (t := t) (by rw [ht]; rfl))
    exact h.of_slot_change rfl rfl (.inr hitem) fun _ => id
  | @drop t now i x ht =>
    rw [Undisturbed, ht] at hC
    intro u now' threshold count j hu
    have hut : u ≠ t := by
      rintro rfl
      simp at hu
    simp only [State.setThread_threads, Function.update_of_ne hut] at hu
    have hji : j ≠ i := by
      rintro rfl
      exact hC u (by rw [show s.threads u = _ from hu]; rfl)
    simp only [State.setThread_slots, State.recordStore_slots, State.setSlot_slots,
      Function.update_of_ne hji]
    exact h u now' threshold count j hu
  | @sweepOld t now threshold count i ht hold =>
    rw [Undisturbed, ht] at hC
    intro u now' threshold' count' j hu
    rw [State.setThread_threads, Function.update_apply] at hu
    split at hu
    · cases hu
      rw [State.setThread_slots]
      refine .inr (.inr ?_)
      rcases hC with hpos | hle <;> omega
    · exact h u now' threshold' count' j hu

/-- **Run lemma.** The invariant holds in the runs that meet the condition. -/
theorem looked_of_reachable (hs : (machine n T Tid idleSecs).Reachable Undisturbed s) :
    Looked s := by
  refine hs.invariant_of_reachable ?_ fun s a s' hr h hC hstep =>
    looked_of_step (inv_of_reachable hr) h hC hstep
  rintro _ ⟨now, items, rfl⟩
  exact nofun

omit [DecidableEq Tid] in
theorem removesItem_iff {t : Tid} {now threshold count : ℕ} {i : Fin n}
    (ht : s.threads t = .sweepLock now threshold count i) :
    RemovesItem s i (.advance t) ↔ (s.slots i).poisoned = false ∧ (s.slots i).item.isSome ∧
      (s.slots i).busy = false := by
  rw [RemovesItem, ht]
  exact and_iff_right rfl

theorem respectsRecency (n : ℕ) (T Tid : Type) [DecidableEq Tid] (idleSecs : ℕ) :
    RespectsRecency idleSecs (@Undisturbed n T Tid) := by
  refine ⟨fun s t now threshold count i hs ht _ hr => ?_,
    fun s _ _ _ t t' now threshold count i now' x _ ht ht' hC => ?_⟩
  · obtain ⟨-, hitem, hbusy⟩ := (removesItem_iff ht).1 hr
    rcases looked_of_reachable hs t now threshold count i ht with hb | hnone | hold
    · exact absurd (hb.symm.trans hbusy) nofun
    · rw [hnone] at hitem
      cases hitem
    · exact hold
  · rw [Undisturbed, ht'] at hC
    exact absurd (by rw [ht]; rfl) (hC t)

/-! ### Guards dropped after the look -/

/-- When a sweep began, and the slot that it has found free and not yet left. -/
def Phase.sweepOf : Phase n T → Option (ℕ × Option (Fin n))
  | .sweepBusy now _ _ _ => some (now, none)
  | .sweepAge now _ _ i | .sweepLock now _ _ i => some (now, some i)
  | _ => none

/-- A guard that is dropped while a sweep is at its slot began to be dropped after the sweep. -/
structure Later (s : State n T Tid) : Prop where
  began : ∀ t now i, (s.threads t).sweepOf = some (now, i) → now ≤ s.clock
  dropping : ∀ t t' now i now' x, (s.threads t).sweepOf = some (now, some i) →
    s.threads t' = .dropping now' i x → now ≤ now'

/-- A step of one thread. -/
theorem Later.setThread (h : Later s) {t : Tid} {p : Phase n T}
    (hthreads : s'.threads = Function.update s.threads t p) (hclock : s'.clock = s.clock)
    (hbegan : ∀ now i, p.sweepOf = some (now, i) → now ≤ s.clock)
    (hat : ∀ t' now i now' x, p.sweepOf = some (now, some i) →
      s.threads t' = .dropping now' i x → now ≤ now')
    (hdrop : ∀ now' i x, p = .dropping now' i x → now' = s.clock) : Later s' := by
  have hcases (u : Tid) : s'.threads u = p ∨ s'.threads u = s.threads u := by
    rw [hthreads, Function.update_apply]
    split
    · exact .inl rfl
    · exact .inr rfl
  have hbegan' : ∀ u now i, (s'.threads u).sweepOf = some (now, i) → now ≤ s.clock := by
    intro u now i hu
    rcases hcases u with hp | hp <;> rw [hp] at hu
    · exact hbegan now i hu
    · exact h.began u now i hu
  refine ⟨fun u now i hu => hclock ▸ hbegan' u now i hu, fun u u' now i now' x hu hu' => ?_⟩
  rcases hcases u' with hp' | hp' <;> rw [hp'] at hu'
  · rw [hdrop now' i x hu']
    exact hbegan' u now (some i) hu
  · rcases hcases u with hp | hp <;> rw [hp] at hu
    · exact hat u' now i now' x hu hu'
    · exact h.dropping u u' now i now' x hu hu'

/-- **Step lemma.** Every step keeps the invariant. -/
theorem later_of_step (hinv : Inv s) (h : Later s) (hstep : step idleSecs s a = some s') :
    Later s' := by
  cases trans_of_step hstep with
  | tick d =>
    exact ⟨fun t now i hi => (h.began t now i hi).trans (Nat.le_add_right _ _), h.dropping⟩
  | beginSweep =>
    refine h.setThread rfl rfl (fun now i hi => ?_) nofun nofun
    cases hi
    exact Nat.le_refl _
  | beginDrop =>
    refine h.setThread rfl rfl nofun nofun fun now' i x hp => ?_
    cases hp
    rfl
  | sweepBusy ht | sweepYoung ht | evict ht | sweepKeep ht =>
    refine h.setThread rfl rfl (fun now i hi => ?_) nofun nofun
    cases hi
    exact h.began _ _ _ (by rw [ht]; rfl)
  | @sweepFree t now threshold count i ht hi hb =>
    refine h.setThread rfl rfl (fun now i hi => ?_) (fun t' now i now' x hi ht' => ?_) nofun
    · cases hi
      exact h.began _ _ _ (by rw [ht]; rfl)
    · -- a guard that is dropped owns its slot, and the slot is free
      cases hi
      exact absurd (by rw [ht']; rfl) (hinv.not_owns hb t')
  | @sweepOld t now threshold count i ht =>
    have hat : (s.threads t).sweepOf = some (now, some i) := by rw [ht]; rfl
    refine h.setThread rfl rfl (fun now i hi => ?_) (fun t' now i now' x hi ht' => ?_) nofun
    · cases hi
      exact h.began _ _ _ hat
    · cases hi
      exact h.dropping _ _ _ _ _ _ hat ht'
  | _ => exact h.setThread rfl rfl nofun nofun nofun

theorem later_of_reachable (hs : (machine n T Tid idleSecs).Reachable C s) : Later s := by
  refine hs.invariant_of_reachable ?_ fun s a s' hr h _ hstep =>
    later_of_step (inv_of_reachable hr) h hstep
  rintro _ ⟨now, items, rfl⟩
  exact ⟨nofun, nofun⟩

/-- After a guard of a slot that a sweep has looked at is dropped, the sweep is about to remove an
item that was used since it began. -/
theorem removesItem_of_drop (hs : (machine n T Tid idleSecs).Reachable C s) {t t' : Tid}
    {now threshold count now' : ℕ} {i : Fin n} {x : T}
    (ht : s.threads t = .sweepLock now threshold count i)
    (ht' : s.threads t' = .dropping now' i x) (hp : (s.slots i).poisoned = false) :
    ∃ s', step idleSecs s (.advance t') = some s' ∧ RemovesItem s' i (.advance t) ∧
      now ≤ (s'.slots i).lastUsed := by
  have htt' : t ≠ t' := by
    rintro rfl
    cases ht.symm.trans ht'
  refine ⟨_, by simp only [step, advance, ht']; rfl, ?_, ?_⟩
  · have hkeep : (((s.setSlot i { s.slots i with
        item := some x, busy := false, lastUsed := now' }).recordStore i x).setThread t'
          .idle).threads t = .sweepLock now threshold count i := by
      simp only [State.setThread_threads, Function.update_of_ne htt']
      exact ht
    rw [removesItem_iff hkeep]
    simp [hp]
  · have hlater := (later_of_reachable hs).dropping t t' now i now' x (by rw [ht]; rfl) ht'
    simpa using hlater

/-! ### When sweeps respect recency -/

/-- **Recency.** The sweeps of the runs that meet the condition remove only items that were idle for
the threshold, and none that was returned after the look. When a guard is dropped between the look
and the critical section, the sweep is about to remove an item that was just used. -/
theorem respectsRecency_of_undisturbed (n : ℕ) (T Tid : Type) [DecidableEq Tid] (idleSecs : ℕ) :
    RespectsRecency idleSecs (@Undisturbed n T Tid) ∧
    ∀ s t t' now threshold count i now' x,
      (machine n T Tid idleSecs).Reachable (fun _ _ => True) s →
      s.threads t = .sweepLock now threshold count i → s.threads t' = .dropping now' i x →
      (s.slots i).poisoned = false → 0 < threshold →
      ∃ s', step idleSecs s (.advance t') = some s' ∧ RemovesItem s' i (.advance t) ∧
        ¬ (s'.slots i).lastUsed + threshold ≤ now := by
  refine ⟨respectsRecency n T Tid idleSecs, ?_⟩
  intro s t t' now threshold count i now' x hs ht ht' hp hpos
  obtain ⟨s', hstep, hr, hle⟩ := removesItem_of_drop hs ht ht' hp
  exact ⟨s', hstep, hr, by omega⟩

instance (p : Phase n T) (i : Fin n) : Decidable (p.Looked i) :=
  match p with
  | .sweepLock _ _ _ j => inferInstanceAs (Decidable (j = i))
  | .idle | .scan .. | .inspect .. | .claim .. | .reinit .. | .storeNew .. | .unclaim .. | .guard ..
  | .dropping .. | .failed _ | .panicked _ | .sweepBusy .. | .sweepAge .. | .swept _ =>
    instDecidableFalse

instance [Fintype Tid] (s : State n T Tid) (a : Action T Tid) : Decidable (Undisturbed s a) :=
  match a with
  | .advance t =>
    match h : s.threads t with
    | .dropping _ i _ =>
      decidable_of_iff (∀ t', ¬ (s.threads t').Looked i) (by rw [Undisturbed, h])
    | .sweepAge now threshold _ i =>
      decidable_of_iff (0 < threshold ∨ (s.slots i).lastUsed ≤ now) (by rw [Undisturbed, h])
    | .idle | .scan .. | .inspect .. | .claim .. | .reinit .. | .storeNew .. | .unclaim ..
    | .guard .. | .failed _ | .panicked _ | .sweepBusy .. | .sweepLock .. | .swept _ =>
      isTrue (by rw [Undisturbed, h]; trivial)
  | .tick _ | .beginAcquire _ | .beginSweep .. | .factory .. | .beginDrop _ => instDecidableTrue

/-- A guard is dropped before a sweep looks, and a later sweep evicts the slot. -/
theorem respectsRecency_of_undisturbed_idle :
    ∃ s, (machine 1 ℕ Bool 1).Reachable Undisturbed s ∧ s.threads true = .sweepLock 9 5 0 0 ∧
      RemovesItem s 0 (.advance true) ∧ (s.slots 0).lastUsed + 5 ≤ 9 := by
  obtain ⟨s, hs, ht, hr⟩ :
      ∃ s ∈ (machine 1 ℕ Bool 1).runUnder Undisturbed onePool
        [.tick 2, .beginAcquire false, .advance false, .advance false, .advance false,
          .beginDrop false, .beginSweep true 1, .advance true, .advance false, .advance true,
          .tick 7, .beginSweep true 5, .advance true, .advance true],
        s.threads true = .sweepLock 9 5 0 0 ∧ RemovesItem s 0 (.advance true) := by
    decide
  have hreach : (machine 1 ℕ Bool 1).Reachable Undisturbed s := .of_runUnder ⟨0, fun _ => 7, rfl⟩ hs
  have hC : Undisturbed s (.advance true) := by rw [Undisturbed, ht]; trivial
  exact ⟨s, hreach, ht, hr,
    (respectsRecency_of_undisturbed 1 ℕ Bool 1).1.aged s true 9 5 0 0 hreach ht hC hr⟩

/-- A sweep looks at the age of a slot, the slot is acquired and returned, and the sweep evicts
it. -/
theorem not_respectsRecency_returned :
    ¬ RespectsRecency 1 (fun (_ : State 1 ℕ Bool) (_ : Action ℕ Bool) => True) := by
  intro h
  obtain ⟨s, hs, ht, hr, hlast⟩ :
      ∃ s ∈ (machine 1 ℕ Bool 1).runUnder (fun _ _ => True) onePool
        [.tick 10, .beginSweep true 5, .advance true, .advance true,
          .beginAcquire false, .advance false, .advance false, .advance false,
          .beginDrop false, .advance false],
        s.threads true = .sweepLock 10 5 0 0 ∧ RemovesItem s 0 (.advance true) ∧
          (s.slots 0).lastUsed = 10 := by
    decide
  have hreach : (machine 1 ℕ Bool 1).Reachable (fun _ _ => True) s :=
    .of_runUnder ⟨0, fun _ => 7, rfl⟩ hs
  have haged := h.aged s true 10 5 0 0 hreach ht trivial hr
  rw [hlast] at haged
  exact absurd haged (by decide)

end OxEmbed.EvictablePool

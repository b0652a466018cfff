import Mathlib.Tactic.Common
import OxEmbed.EvictablePool.Basic

/-!
# Ownership of the slots of the evictable pool

The busy flag of a slot is set by a thread that then owns the slot: an `acquire` that runs the
factory or hands over its result, or a live guard. This file proves what holds on every schedule
of `acquire` calls, sweeps and guard drops.

Ownership is exclusive without any assumption. That a busy slot *has* an owner is not: `acquire`
looks at the item in one critical section and takes it in another, and a sweep that removes the
item in between makes the second one panic with the busy flag set. The condition `WindowRespected`
excludes exactly the steps that open this possibility.

## Main definitions

* `Inv` : the ownership invariant, with its parts `ThreadOk` and `SlotOk`.
* `Accounted` : every busy slot has an owner and no `acquire` is about to panic.

## Main results

* `inv_of_reachable` : the ownership invariant holds on every schedule.
* `accounted_of_reachable` : with a factory that does not panic and the window respected, every
  busy slot has an owner.
-/

namespace OxEmbed.EvictablePool

variable {n : ℕ} {T Tid : Type} {idleSecs : ℕ} {s s' : State n T Tid} {a : Action T Tid}

/-! ### The ownership invariant -/

/-- What the program point of a thread says about the slot it owns. -/
def ThreadOk (s : State n T Tid) : Phase n T → Prop
  | .reinit _ i =>
    (s.slots i).busy = true ∧ (s.coldCalls i).length = s.coldFailures i + 1
  | .storeNew _ i _ => (s.slots i).busy = true
  | .unclaim i _ => (s.slots i).busy = true ∧ (s.coldCalls i).length = s.coldFailures i
  | .guard i x | .dropping _ i x => (s.slots i).busy = true ∧ s.lastStored i = x
  | _ => True

/-- A busy slot has no item; an item in a slot is the last one stored there; and of the factory
calls made since the last eviction at most one has not failed, none when the slot is evicted and
free to be claimed. -/
structure SlotOk (s : State n T Tid) (i : Fin n) : Prop where
  empty : (s.slots i).busy = true → (s.slots i).item = none
  stored : ∀ x, (s.slots i).item = some x → s.lastStored i = x
  calls : (s.coldCalls i).length ≤ s.coldFailures i + 1
  retry : (s.slots i).busy = false → (s.slots i).item = none →
    (s.coldCalls i).length = s.coldFailures i

/-- The ownership invariant. -/
structure Inv (s : State n T Tid) : Prop where
  thread : ∀ t, ThreadOk s (s.threads t)
  slot : ∀ i, SlotOk s i
  exclusive : ∀ t t' i, (s.threads t).Owns i → (s.threads t').Owns i → t = t'

theorem ThreadOk.busy {p : Phase n T} {i : Fin n} (h : ThreadOk s p) (hp : p.Owns i) :
    (s.slots i).busy = true := by
  cases p <;> simp only [Phase.Owns] at hp <;> subst hp <;> simp only [ThreadOk] at h <;> grind

theorem Inv.busy (h : Inv s) {t : Tid} {i : Fin n} (ht : (s.threads t).Owns i) :
    (s.slots i).busy = true :=
  (h.thread t).busy ht

theorem Inv.not_owns (h : Inv s) {i : Fin n} (hb : (s.slots i).busy = false) (t : Tid) :
    ¬ (s.threads t).Owns i := fun ht => by
  simp [h.busy ht] at hb

/-- Two states agree off slot `i`. -/
structure AgreeOff (i : Fin n) (s s' : State n T Tid) : Prop where
  slots : ∀ j, j ≠ i → s'.slots j = s.slots j
  lastStored : ∀ j, j ≠ i → s'.lastStored j = s.lastStored j
  coldCalls : ∀ j, j ≠ i → s'.coldCalls j = s.coldCalls j
  coldFailures : ∀ j, j ≠ i → s'.coldFailures j = s.coldFailures j

namespace AgreeOff

variable {i : Fin n}

theorem refl (i : Fin n) (s : State n T Tid) : AgreeOff i s s :=
  ⟨fun _ _ => rfl, fun _ _ => rfl, fun _ _ => rfl, fun _ _ => rfl⟩

theorem setThread [DecidableEq Tid] (h : AgreeOff i s s') (t : Tid) (p : Phase n T) :
    AgreeOff i s (s'.setThread t p) :=
  ⟨h.slots, h.lastStored, h.coldCalls, h.coldFailures⟩

theorem setSlot (h : AgreeOff i s s') (v : EvictableSlot T) : AgreeOff i s (s'.setSlot i v) :=
  ⟨fun j hj => by rw [State.setSlot_slots, Function.update_of_ne hj, h.slots j hj],
    h.lastStored, h.coldCalls, h.coldFailures⟩

theorem recordStore (h : AgreeOff i s s') (x : T) : AgreeOff i s (s'.recordStore i x) :=
  ⟨h.slots,
    fun j hj => by rw [State.recordStore_lastStored, Function.update_of_ne hj, h.lastStored j hj],
    h.coldCalls, h.coldFailures⟩

theorem recordColdCall (h : AgreeOff i s s') (t : Tid) : AgreeOff i s (s'.recordColdCall i t) :=
  ⟨h.slots, h.lastStored,
    fun j hj => by rw [State.recordColdCall_coldCalls, Function.update_of_ne hj, h.coldCalls j hj],
    h.coldFailures⟩

theorem recordColdFailure (h : AgreeOff i s s') : AgreeOff i s (s'.recordColdFailure i) :=
  ⟨h.slots, h.lastStored, h.coldCalls, fun j hj => by
    rw [State.recordColdFailure_coldFailures, Function.update_of_ne hj, h.coldFailures j hj]⟩

theorem recordEviction (h : AgreeOff i s s') : AgreeOff i s (s'.recordEviction i) :=
  ⟨h.slots, h.lastStored,
    fun j hj => by rw [State.recordEviction_coldCalls, Function.update_of_ne hj, h.coldCalls j hj],
    fun j hj => by
      rw [State.recordEviction_coldFailures, Function.update_of_ne hj, h.coldFailures j hj]⟩

end AgreeOff

/-- A thread that does not own slot `i` is not affected by a change of that slot. -/
theorem ThreadOk.frame {p : Phase n T} {i : Fin n} (h : ThreadOk s p) (hs : AgreeOff i s s')
    (hp : ¬ p.Owns i) : ThreadOk s' p := by
  cases p <;> simp only [Phase.Owns, not_false_eq_true] at hp <;> simp only [ThreadOk] at h ⊢ <;>
    simpa only [hs.slots _ hp, hs.lastStored _ hp, hs.coldCalls _ hp, hs.coldFailures _ hp] using h

theorem SlotOk.frame {i j : Fin n} (h : SlotOk s j) (hs : AgreeOff i s s') (hj : j ≠ i) :
    SlotOk s' j := by
  obtain ⟨h₁, h₂, h₃, h₄⟩ := h
  constructor <;>
    simpa only [hs.slots j hj, hs.lastStored j hj, hs.coldCalls j hj, hs.coldFailures j hj]

/-- The invariant is kept by a step of thread `t` that changes at most slot `i`, when that slot is
not busy or owned by `t`, and `t` comes to own no slot but `i`. -/
theorem Inv.of_slot_change [DecidableEq Tid] (h : Inv s) {t : Tid} {i : Fin n} {p : Phase n T}
    (hthreads : s'.threads = Function.update s.threads t p) (hs : AgreeOff i s s')
    (hfree : (s.slots i).busy = false ∨ (s.threads t).Owns i)
    (howns : ∀ j, p.Owns j → j = i) (hp : ThreadOk s' p) (hi : SlotOk s' i) : Inv s' := by
  have hother : ∀ t', t' ≠ t → ¬ (s.threads t').Owns i := by
    intro t' ht ho
    rcases hfree with hb | hown
    · exact h.not_owns hb t' ho
    · exact ht (h.exclusive t' t i ho hown)
  refine ⟨fun t' => ?_, fun j => ?_, fun t₁ t₂ j h₁ h₂ => ?_⟩
  · rw [hthreads]
    by_cases ht : t' = t
    · subst ht
      rwa [Function.update_self]
    · rw [Function.update_of_ne ht]
      exact (h.thread t').frame hs (hother t' ht)
  · by_cases hj : j = i
    · exact hj ▸ hi
    · exact (h.slot j).frame hs hj
  · -- only `t` can have come to own a slot, and that slot is `i`
    have key : ∀ t', t' ≠ t → (s.threads t').Owns j → ¬ p.Owns j := by
      intro t' ht ho hpj
      exact hother t' ht (howns j hpj ▸ ho)
    rw [hthreads] at h₁ h₂
    by_cases e₁ : t₁ = t <;> by_cases e₂ : t₂ = t
    · rw [e₁, e₂]
    · subst e₁
      rw [Function.update_self] at h₁
      rw [Function.update_of_ne e₂] at h₂
      exact absurd h₁ (key t₂ e₂ h₂)
    · subst e₂
      rw [Function.update_self] at h₂
      rw [Function.update_of_ne e₁] at h₁
      exact absurd h₂ (key t₁ e₁ h₁)
    · rw [Function.update_of_ne e₁] at h₁
      rw [Function.update_of_ne e₂] at h₂
      exact h.exclusive t₁ t₂ j h₁ h₂

/-- The invariant is kept by a step of thread `t` that changes no slot and claims none. -/
theorem Inv.setThread [DecidableEq Tid] (h : Inv s) {t : Tid} {p : Phase n T} (hp : ThreadOk s p)
    (howns : ∀ j, p.Owns j → (s.threads t).Owns j) : Inv (s.setThread t p) := by
  refine ⟨fun t' => ?_, fun j => ?_, fun t₁ t₂ j h₁ h₂ => ?_⟩
  · change ThreadOk s (Function.update s.threads t p t')
    by_cases ht : t' = t
    · subst ht
      rwa [Function.update_self]
    · rw [Function.update_of_ne ht]
      exact h.thread t'
  · exact ⟨(h.slot j).empty, (h.slot j).stored, (h.slot j).calls, (h.slot j).retry⟩
  · have key : ∀ t', (Function.update s.threads t p t').Owns j → (s.threads t').Owns j := by
      intro t' ho
      by_cases ht : t' = t
      · subst ht
        rw [Function.update_self] at ho
        exact howns j ho
      · rwa [Function.update_of_ne ht] at ho
    exact h.exclusive t₁ t₂ j (key t₁ h₁) (key t₂ h₂)

theorem inv_fromItems (now : ℕ) (items : Fin n → T) :
    Inv (fromItems now items : State n T Tid) where
  thread _ := trivial
  slot _ := ⟨by simp [fromItems, EvictableSlot.fresh], by simp [fromItems, EvictableSlot.fresh],
    by simp [fromItems], by simp [fromItems]⟩
  exclusive _ _ _ h := h.elim

variable [DecidableEq Tid]

/-- **Step lemma.** Every step keeps the ownership invariant. -/
theorem inv_of_step (h : Inv s) (hstep : step idleSecs s a = some s') : Inv s' := by
  cases trans_of_step hstep with
  | tick d =>
    exact ⟨h.thread, fun i => ⟨(h.slot i).empty, (h.slot i).stored, (h.slot i).calls,
      (h.slot i).retry⟩, h.exclusive⟩
  | beginAcquire | beginSweepOff | beginSweep | factoryPanic | scanBusy | scanFree | scanEnd
  | inspectBusy | inspectItem | claimBusy | sweepBusy | sweepFree | sweepEnd | sweepOld
  | sweepYoung | sweepKeep => exact h.setThread trivial fun j hj => hj.elim
  | @factoryOk t now i x ht =>
    have hok := h.thread t
    rw [ht] at hok
    exact h.setThread hok.1 fun j hj => by rwa [ht]
  | @beginDrop t i x ht =>
    have hok := h.thread t
    rw [ht] at hok
    exact h.setThread hok fun j hj => by rwa [ht]
  | @factoryErr t now i e ht =>
    have hok := h.thread t
    rw [ht] at hok
    refine h.of_slot_change rfl ((AgreeOff.refl i s).recordColdFailure.setThread t _)
      (Or.inr (by rw [ht]; rfl)) (fun j hj => hj.symm) ?_ ?_
    · exact ⟨hok.1, by simpa using hok.2⟩
    · exact ⟨(h.slot i).empty, (h.slot i).stored, by simp [hok.2], by simp [hok.1]⟩
  | @inspectEvicted t now i ht hb hi =>
    have hcalls := (h.slot i).retry hb hi
    refine h.of_slot_change rfl
      (((AgreeOff.refl i s).setSlot _).recordColdCall t |>.setThread t _) (Or.inl hb)
      (fun j hj => hj.symm) ?_ ?_
    · exact ⟨by simp, by simpa using hcalls⟩
    · exact ⟨by simp [hi], by simp [hi], by simp [hcalls], by simp⟩
  | @claimItem t now i x ht hb hi =>
    refine h.of_slot_change rfl (((AgreeOff.refl i s).setSlot _).setThread t _) (Or.inl hb)
      (fun j hj => hj.symm) ?_ ?_
    · exact ⟨by simp, (h.slot i).stored x hi⟩
    · exact ⟨by simp, by simp, (h.slot i).calls, by simp⟩
  | @claimMissing t now i ht hb hi =>
    refine h.of_slot_change rfl (((AgreeOff.refl i s).setSlot _).setThread t _) (Or.inl hb)
      (fun j hj => hj.elim) trivial ?_
    exact ⟨by simp [hi], by simp [hi], (h.slot i).calls, by simp⟩
  | @storeNew t now i x ht =>
    have hok := h.thread t
    rw [ht] at hok
    have hbusy : (s.slots i).busy = true := hok
    refine h.of_slot_change rfl
      (((AgreeOff.refl i s).setSlot _).recordStore x |>.setThread t _) (Or.inr (by rw [ht]; rfl))
      (fun j hj => hj.symm) ?_ ?_
    · exact ⟨by simp [hbusy], by simp⟩
    · exact ⟨by simp, by simp, (h.slot i).calls, by simp [hbusy]⟩
  | @unclaim t i e ht =>
    have hok := h.thread t
    rw [ht] at hok
    refine h.of_slot_change rfl (((AgreeOff.refl i s).setSlot _).setThread t _)
      (Or.inr (by rw [ht]; rfl)) (fun j hj => hj.elim) trivial ?_
    exact ⟨by simp, by simpa using (h.slot i).stored, (h.slot i).calls, fun _ _ => hok.2⟩
  | @drop t now i x ht =>
    refine h.of_slot_change rfl
      (((AgreeOff.refl i s).setSlot _).recordStore x |>.setThread t _) (Or.inr (by rw [ht]; rfl))
      (fun j hj => hj.elim) trivial ?_
    exact ⟨by simp, by simp, (h.slot i).calls, by simp⟩
  | @evict t now threshold count i ht hp hi hb =>
    refine h.of_slot_change rfl
      (((AgreeOff.refl i s).setSlot _).recordEviction.setThread t _) (Or.inl hb)
      (fun j hj => hj.elim) trivial ?_
    exact ⟨by simp, by simp, by simp, by simp⟩

/-- **Run lemma.** The ownership invariant holds on every schedule. -/
theorem inv_of_reachable {C : State n T Tid → Action T Tid → Prop}
    (hs : (machine n T Tid idleSecs).Reachable C s) : Inv s :=
  hs.invariant (by rintro _ ⟨now, items, rfl⟩; exact inv_fromItems now items)
    fun _ _ _ h _ hstep => inv_of_step h hstep

/-! ### Every busy slot has an owner -/

/-- Every busy slot has an owner, an `acquire` that has seen an item will find it or see the slot
busy with a guard that returns it, and no `expect` has failed. -/
structure Accounted (s : State n T Tid) : Prop where
  owned : ∀ i, (s.slots i).busy = true → ∃ t, (s.threads t).Owns i
  window : ∀ t i, (s.threads t).Claims i →
    (s.slots i).item ≠ none ∨ ∃ t' x, (s.threads t').Holds i x
  noBug : ∀ t, s.threads t ≠ .panicked true

omit [DecidableEq Tid] in
theorem Phase.Holds.owns {p : Phase n T} {i : Fin n} {x : T} (h : p.Holds i x) : p.Owns i := by
  cases p <;> simp only [Phase.Holds] at h <;> exact h.1

omit [DecidableEq Tid] in
theorem accounted_fromItems (now : ℕ) (items : Fin n → T) :
    Accounted (fromItems now items : State n T Tid) where
  owned i h := by simp [fromItems, EvictableSlot.fresh] at h
  window t i h := h.elim
  noBug t := by simp [fromItems]

/-- `Accounted` is kept by a step of thread `t` that changes no slot and gives up none. -/
theorem Accounted.setThread (h : Accounted s) {t : Tid} {p : Phase n T}
    (howns : ∀ j, (s.threads t).Owns j → p.Owns j)
    (hholds : ∀ j x, (s.threads t).Holds j x → ∃ y, p.Holds j y)
    (hclaim : ∀ j, p.Claims j → (s.slots j).item ≠ none) (hbug : p ≠ .panicked true) :
    Accounted (s.setThread t p) := by
  refine ⟨fun j hb => ?_, fun t₁ j h₁ => ?_, fun t₁ => ?_⟩
  · obtain ⟨t', ht'⟩ := h.owned j hb
    refine ⟨t', ?_⟩
    by_cases ht : t' = t
    · subst ht
      simpa using howns j ht'
    · simpa [ht] using ht'
  · have hwin : (s.slots j).item ≠ none ∨ ∃ t' x, (s.threads t').Holds j x := by
      by_cases ht : t₁ = t
      · subst ht
        exact Or.inl (hclaim j (by simpa using h₁))
      · exact h.window t₁ j (by simpa [ht] using h₁)
    refine hwin.imp_right fun ⟨t', x, ht'⟩ => ⟨t', ?_⟩
    by_cases ht : t' = t
    · subst ht
      simpa using hholds j x ht'
    · exact ⟨x, by simpa [ht] using ht'⟩
  · by_cases ht : t₁ = t
    · subst ht
      simpa using hbug
    · simpa [ht] using h.noBug t₁

/-- `Accounted` is kept by a step of thread `t` that changes slot `i` only, leaves it not busy or
owned by `t`, and leaves an item or a guard for every `acquire` that has seen its item. -/
theorem Accounted.of_slot_change (h : Accounted s) {t : Tid} {i : Fin n} {p : Phase n T}
    (hthreads : s'.threads = Function.update s.threads t p)
    (hs : ∀ j, j ≠ i → s'.slots j = s.slots j) (hold : ∀ j, (s.threads t).Owns j → j = i)
    (hbusy : (s'.slots i).busy = true → p.Owns i) (hclaim : ∀ j, ¬ p.Claims j)
    (hbug : p ≠ .panicked true)
    (hwin : ∀ t', (s.threads t').Claims i →
      (s'.slots i).item ≠ none ∨ ∃ x, p.Holds i x) : Accounted s' := by
  refine ⟨fun j hb => ?_, fun t₁ j h₁ => ?_, fun t₁ => ?_⟩
  · rw [hthreads]
    by_cases hj : j = i
    · subst hj
      exact ⟨t, by simpa using hbusy hb⟩
    · rw [hs j hj] at hb
      obtain ⟨t', ht'⟩ := h.owned j hb
      have ht : t' ≠ t := fun e => hj (hold j (e ▸ ht'))
      exact ⟨t', by simpa [ht] using ht'⟩
  · rw [hthreads] at h₁ ⊢
    have ht₁ : t₁ ≠ t := by
      rintro rfl
      exact hclaim j (by simpa using h₁)
    rw [Function.update_of_ne ht₁] at h₁
    by_cases hj : j = i
    · subst hj
      exact (hwin t₁ h₁).imp_right fun ⟨x, hx⟩ => ⟨t, x, by simpa using hx⟩
    · rw [hs j hj]
      refine (h.window t₁ j h₁).imp_right fun ⟨t', x, ht'⟩ => ⟨t', x, ?_⟩
      have ht : t' ≠ t := fun e => hj (hold j (e ▸ ht'.owns))
      simpa [ht] using ht'
  · rw [hthreads]
    by_cases ht : t₁ = t
    · subst ht
      simpa using hbug
    · simpa [ht] using h.noBug t₁

omit [DecidableEq Tid] in
/-- Without an item and without a guard, no `acquire` has seen the item of a slot. -/
theorem Accounted.not_claim (h : Accounted s) {i : Fin n} (hi : (s.slots i).item = none)
    (hno : ∀ t x, ¬ (s.threads t).Holds i x) (t : Tid) : ¬ (s.threads t).Claims i := by
  intro ht
  rcases h.window t i ht with hne | ⟨t', x, ht'⟩
  · exact hne hi
  · exact hno t' x ht'

omit [DecidableEq Tid] in
theorem Inv.not_holds_of_free (h : Inv s) {i : Fin n} (hb : (s.slots i).busy = false) (t : Tid)
    (x : T) : ¬ (s.threads t).Holds i x :=
  fun ht => h.not_owns hb t ht.owns

omit [DecidableEq Tid] in
theorem Inv.not_holds_of_owner (h : Inv s) {t : Tid} {i : Fin n} (ht : (s.threads t).Owns i)
    (hno : ∀ x, ¬ (s.threads t).Holds i x) (t' : Tid) (x : T) : ¬ (s.threads t').Holds i x :=
  fun ht' => hno x (h.exclusive t' t i ht'.owns ht ▸ ht')

/-- **Step lemma.** A step that respects the window, other than a panic of the factory, keeps
every busy slot owned. -/
theorem accounted_of_step (hinv : Inv s) (h : Accounted s) (hF : FactoryTotal s a)
    (hW : WindowRespected s a) (hstep : step idleSecs s a = some s') : Accounted s' := by
  -- a move of a thread that owns nothing to a phase other than `claim`
  have hmove {t : Tid} {p : Phase n T} (hp₀ : ∀ j, ¬ (s.threads t).Owns j)
      (hclaim : ∀ j, ¬ p.Claims j) (hbug : p ≠ .panicked true) :
      Accounted (s.setThread t p) :=
    h.setThread (fun j hj => (hp₀ j hj).elim) (fun j x hx => (hp₀ j hx.owns).elim)
      (fun j hj => (hclaim j hj).elim) hbug
  cases trans_of_step hstep with
  | tick d => exact ⟨h.owned, h.window, h.noBug⟩
  | beginAcquire ht | beginSweepOff ht | beginSweep ht =>
    refine hmove (fun j hj => ?_) (fun _ hc => hc) (by simp)
    revert ht hj
    cases s.threads _ <;> simp [Phase.Outside, Phase.Owns]
  | scanBusy ht | scanFree ht | scanEnd ht | inspectBusy ht | claimBusy ht | sweepBusy ht
  | sweepFree ht | sweepEnd ht | sweepOld ht | sweepYoung ht | sweepKeep ht =>
    exact hmove (fun j hj => by rw [ht] at hj; exact hj) (fun _ hc => hc) (by simp)
  | factoryOk ht =>
    exact h.setThread (fun j hj => by rw [ht] at hj; exact hj)
      (fun j x hx => by rw [ht] at hx; exact hx.elim) (fun _ hc => hc.elim) (by simp)
  | @factoryErr t now i e ht =>
    have hk : Accounted (s.setThread t (.unclaim i e)) :=
      h.setThread (fun j hj => by rw [ht] at hj; exact hj)
        (fun j x hx => by rw [ht] at hx; exact hx.elim) (fun _ hc => hc.elim) (by simp)
    exact ⟨hk.owned, hk.window, hk.noBug⟩
  | factoryPanic ht => exact hF.elim
  | @beginDrop t i x ht =>
    exact h.setThread (fun j hj => by rw [ht] at hj; exact hj)
      (fun j y hx => by rw [ht] at hx; exact ⟨y, hx⟩) (fun _ hc => hc.elim) (by simp)
  | @inspectItem t now i ht hb hi =>
    refine h.setThread (fun j hj => by rw [ht] at hj; exact hj.elim)
      (fun j x hx => by rw [ht] at hx; exact hx.elim) (fun j hj => ?_) (by simp)
    obtain rfl : i = j := hj
    exact hi
  | @inspectEvicted t now i ht hb hi =>
    refine h.of_slot_change (i := i) rfl (fun j hj => by simp [hj])
      (fun j hj => by rw [ht] at hj; exact hj.elim) (fun _ => rfl) (fun _ hc => hc) (by simp)
      fun t' ht' => ?_
    exact absurd ht' (h.not_claim hi (hinv.not_holds_of_free hb) t')
  | @claimItem t now i x ht hb hi =>
    exact h.of_slot_change (i := i) rfl (fun j hj => by simp [hj])
      (fun j hj => by rw [ht] at hj; exact hj.elim) (fun _ => rfl) (fun _ hc => hc) (by simp)
      fun _ _ => Or.inr ⟨x, rfl, rfl⟩
  | @claimMissing t now i ht hb hi =>
    have hclaims : (s.threads t).Claims i := by rw [ht]; rfl
    exact absurd hclaims (h.not_claim hi (hinv.not_holds_of_free hb) t)
  | @storeNew t now i x ht =>
    exact h.of_slot_change (i := i) rfl (fun j hj => by simp [hj])
      (fun j hj => by rw [ht] at hj; exact hj.symm) (fun _ => rfl) (fun _ hc => hc) (by simp)
      fun _ _ => Or.inr ⟨x, rfl, rfl⟩
  | @unclaim t i e ht =>
    have hown : (s.threads t).Owns i := by rw [ht]; rfl
    have hno := hinv.not_holds_of_owner hown fun x hx => by rw [ht] at hx; exact hx
    refine h.of_slot_change (i := i) rfl (fun j hj => by simp [hj])
      (fun j hj => by rw [ht] at hj; exact hj.symm) (by simp) (fun _ hc => hc) (by simp)
      fun t' ht' => ?_
    exact absurd ht' (h.not_claim ((hinv.slot i).empty (hinv.busy hown)) hno t')
  | @drop t now i x ht =>
    exact h.of_slot_change (i := i) rfl (fun j hj => by simp [hj])
      (fun j hj => by rw [ht] at hj; exact hj.symm) (by simp) (fun _ hc => hc) (by simp)
      fun _ _ => Or.inl (by simp)
  | @evict t now threshold count i ht hp hi hb =>
    have hremoves : RemovesItem s i (.advance t) := by
      simp only [RemovesItem, ht]
      exact ⟨trivial, hp, Option.isSome_iff_ne_none.mpr hi, hb⟩
    exact h.of_slot_change (i := i) rfl (fun j hj => by simp [hj])
      (fun j hj => by rw [ht] at hj; exact hj.elim) (by simp [hb]) (fun _ hc => hc) (by simp)
      fun t' ht' => absurd ht' (hW i hremoves t')

/-- **Run lemma.** With a factory that does not panic and the window respected, every busy slot
has an owner and no `acquire` panics. -/
theorem accounted_of_reachable
    (hs : (machine n T Tid idleSecs).Reachable
      (fun s a => FactoryTotal s a ∧ WindowRespected s a) s) : Accounted s :=
  hs.invariant_of_reachable (by rintro _ ⟨now, items, rfl⟩; exact accounted_fromItems now items)
    fun _ _ _ hr h hC hstep => accounted_of_step (inv_of_reachable hr) h hC.1 hC.2 hstep

end OxEmbed.EvictablePool

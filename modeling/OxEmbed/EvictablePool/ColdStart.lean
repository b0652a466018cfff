import OxEmbed.EvictablePool.Admission
import OxEmbed.EvictablePool.Safety

/-!
# Cold starts that fail

An `acquire` that finds a slot evicted marks it busy and calls the factory outside the mutex. When
the factory returns an error the busy flag is cleared again and the slot stays evicted, for a later
`acquire` to retry. When the factory panics, the panic unwinds out of `acquire` past that code: the
slot stays busy with no item, no thread will clear its flag, and no later `acquire` looks at it.

A busy slot without an owner is *lost*. Two kinds of steps lose a slot, the panic of the factory and
the `acquire` that is to take the item of a slot and finds that a sweep has removed it. A lost slot
stays lost.

## Main definitions

* `Settled` : the slot is idle, evicted, or held by a live guard.
* `Lost` : the slot is busy and has no owner.
* `Claimable` : an `acquire` that runs alone claims the slot or an earlier one.
* `LosesSlot`, `KeepsSlots` : the steps that lose a slot, and the other ones.

## Main results

* `lost_of_step_iff` : what one step loses.
* `not_lost_iff` : a run loses no slot exactly when each of its steps keeps the slots.
* `failed_cold_start` : what an `acquire` leaves behind whose cold start failed.
-/

namespace OxEmbed.EvictablePool

variable {n : ℕ} {T Tid : Type} {idleSecs : ℕ} {s s' s₀ : State n T Tid} {a : Action T Tid}
  {as : List (Action T Tid)}

/-! ### The states of a slot -/

/-- The slot has an item and may be acquired. -/
def Idle (s : State n T Tid) (i : Fin n) : Prop :=
  (s.slots i).item ≠ none ∧ (s.slots i).busy = false

/-- The slot is evicted, and the next `acquire` may re-initialise it. -/
def EvictedIdle (s : State n T Tid) (i : Fin n) : Prop :=
  (s.slots i).item = none ∧ (s.slots i).busy = false

/-- The slot is idle, evicted, or held by a live guard. -/
def Settled (s : State n T Tid) (i : Fin n) : Prop :=
  Idle s i ∨ EvictedIdle s i ∨ ∃ t x, (s.threads t).Holds i x

/-- The slot is busy, and no thread will clear its flag. -/
def Lost (s : State n T Tid) (i : Fin n) : Prop :=
  (s.slots i).busy = true ∧ ∀ t, ¬ (s.threads t).Owns i

/-- The phases inside `acquire`. -/
def Phase.Acquiring : Phase n T → Bool
  | .scan .. | .inspect .. | .claim .. | .reinit .. | .storeNew .. | .unclaim .. => true
  | _ => false

/-- An `acquire` that a thread outside the pool begins, and that runs alone, comes to own the slot
or an earlier one, and the slot itself when the earlier ones are busy. -/
def Claimable [DecidableEq Tid] (idleSecs : ℕ) (s : State n T Tid) (i : Fin n) : Prop :=
  ∀ u, (s.threads u).Outside → ∃ as s₁, ∃ j ≤ i,
    (machine n T Tid idleSecs).Path (fun _ _ => True) s (.beginAcquire u :: as) s₁ ∧
    (∀ a ∈ as, a = .advance u) ∧ (s₁.threads u).Owns j ∧
    ((∀ k < i, (s.slots k).busy = true) → j = i)

/-- The step loses slot `i`: the factory that re-initialises it panics, or an `acquire` that has
seen its item finds it free without one. -/
def LosesSlot (s : State n T Tid) (i : Fin n) : Action T Tid → Prop
  | .factory t .panic =>
    match s.threads t with
    | .reinit _ j => j = i
    | _ => False
  | .advance t =>
    match s.threads t with
    | .claim _ j => j = i ∧ (s.slots i).busy = false ∧ (s.slots i).item.isNone
    | _ => False
  | _ => False

/-- The step loses no slot. -/
def KeepsSlots (s : State n T Tid) (a : Action T Tid) : Prop :=
  ∀ i, ¬ LosesSlot s i a

/-- A thread that owns a slot and is not inside `acquire` holds the guard of the slot. -/
theorem Phase.holds_of_owns {p : Phase n T} {i : Fin n} (h : p.Owns i) (hp : ¬ p.Acquiring) :
    ∃ x, p.Holds i x := by
  cases p <;> simp only [Phase.Owns] at h <;> simp only [Phase.Acquiring, not_true] at hp
  · exact ⟨_, h, rfl⟩
  · exact ⟨_, h, rfl⟩

/-- While no `acquire` is in progress, the slots that are not settled are the lost ones. -/
theorem settled_iff_not_lost (hno : ∀ t, ¬ (s.threads t).Acquiring) (i : Fin n) :
    Settled s i ↔ ¬ Lost s i := by
  constructor
  · rintro (⟨-, hfree⟩ | ⟨-, hfree⟩ | ⟨t, x, hx⟩) ⟨hbusy, howner⟩
    · simp [hbusy] at hfree
    · simp [hbusy] at hfree
    · exact howner t hx.owns
  · intro h
    cases hb : (s.slots i).busy with
    | false =>
      by_cases hi : (s.slots i).item = none
      · exact .inr (.inl ⟨hi, hb⟩)
      · exact .inl ⟨hi, hb⟩
    | true =>
      obtain ⟨t, ht⟩ : ∃ t, (s.threads t).Owns i := by
        by_contra hnone
        exact h ⟨hb, not_exists.mp hnone⟩
      obtain ⟨x, hx⟩ := Phase.holds_of_owns ht (hno t)
      exact .inr (.inr ⟨t, x, hx⟩)

variable [DecidableEq Tid]

/-! ### Lost slots -/

/-- A step of thread `t` that keeps the busy flag of a slot, and neither gives up nor takes its
ownership, neither loses nor recovers the slot. -/
theorem lost_iff_of_frame {t : Tid} {p : Phase n T} {i : Fin n}
    (hthreads : s'.threads = Function.update s.threads t p)
    (hbusy : (s'.slots i).busy = (s.slots i).busy) (howns : p.Owns i ↔ (s.threads t).Owns i) :
    Lost s' i ↔ Lost s i := by
  have hthread (t' : Tid) : (s'.threads t').Owns i ↔ (s.threads t').Owns i := by
    rw [hthreads]
    by_cases ht : t' = t
    · subst ht
      rw [Function.update_self, howns]
    · rw [Function.update_of_ne ht]
  unfold Lost
  rw [hbusy]
  exact and_congr_right fun _ => forall_congr' fun t' => not_congr (hthread t')

omit [DecidableEq Tid] in
theorem not_lost_of_free {i : Fin n} (h : (s.slots i).busy = false) : ¬ Lost s i := fun hl => by
  simp [hl.1] at h

omit [DecidableEq Tid] in
theorem not_lost_of_owns {t : Tid} {i : Fin n} (h : (s.threads t).Owns i) : ¬ Lost s i :=
  fun hl => hl.2 t h

/-- **Step lemma.** A step loses exactly the slot whose factory panics under it, or whose item it
misses, and a lost slot stays lost. -/
theorem lost_of_step_iff (hinv : Inv s) (hstep : step idleSecs s a = some s') (i : Fin n) :
    Lost s' i ↔ Lost s i ∨ LosesSlot s i a := by
  -- a step of thread `t` that keeps the busy flag and the ownership of every slot
  have hframe {t : Tid} {p q : Phase n T} (ht : s.threads t = q)
      (hthreads : s'.threads = Function.update s.threads t p)
      (hbusy : (s'.slots i).busy = (s.slots i).busy) (howns : p.Owns i ↔ q.Owns i)
      (hkeep : ¬ LosesSlot s i a) : Lost s' i ↔ Lost s i ∨ LosesSlot s i a := by
    rw [or_iff_left hkeep]
    exact lost_iff_of_frame hthreads hbusy (ht ▸ howns)
  -- a step of thread `t` that changes slot `j` only, and leaves it free or owned, as it was before
  have hslot {t : Tid} {p q : Phase n T} {j : Fin n} (ht : s.threads t = q)
      (hthreads : s'.threads = Function.update s.threads t p)
      (hother : ∀ k, k ≠ j → s'.slots k = s.slots k)
      (howns : ∀ k, k ≠ j → (p.Owns k ↔ q.Owns k)) (h : ¬ Lost s j) (h' : ¬ Lost s' j)
      (hkeep : ¬ LosesSlot s i a) : Lost s' i ↔ Lost s i ∨ LosesSlot s i a := by
    by_cases hj : i = j
    · subst hj
      exact iff_of_false h' (not_or.mpr ⟨h, hkeep⟩)
    · exact hframe ht hthreads (by rw [hother i hj]) (howns i hj) hkeep
  cases trans_of_step hstep with
  | tick d => exact ⟨.inl, fun h => h.resolve_right id⟩
  | beginAcquire ht | beginSweepOff ht | beginSweep ht =>
    refine hframe rfl rfl rfl ?_ id
    revert ht
    cases s.threads _ <;> simp [Phase.Outside, Phase.Owns]
  | factoryOk ht | factoryErr ht | beginDrop ht => exact hframe ht rfl rfl Iff.rfl id
  | @factoryPanic t now j ht =>
    have hloses : LosesSlot s i (.factory t .panic) ↔ j = i := by simp only [LosesSlot, ht]
    by_cases hj : j = i
    · subst hj
      have hown : (s.threads t).Owns j := by rw [ht]; rfl
      refine iff_of_true ⟨hinv.busy hown, fun t' ht' => ?_⟩ (.inr (hloses.mpr rfl))
      by_cases htt : t' = t
      · subst htt
        rw [State.setThread_threads, Function.update_self] at ht'
        exact ht'
      · rw [State.setThread_threads, Function.update_of_ne htt] at ht'
        exact htt (hinv.exclusive t' t j ht' hown)
    · exact hframe ht rfl rfl (iff_of_false id hj) (mt hloses.mp hj)
  | scanBusy ht | scanFree ht | scanEnd ht | inspectBusy ht | inspectItem ht | sweepBusy ht
  | sweepFree ht | sweepEnd ht | sweepOld ht | sweepYoung ht | sweepKeep ht =>
    exact hframe ht rfl rfl Iff.rfl (by simp only [LosesSlot, ht, not_false_eq_true])
  | claimBusy ht hb =>
    refine hframe ht rfl rfl Iff.rfl ?_
    simp only [LosesSlot, ht]
    rintro ⟨rfl, hfree, -⟩
    simp [hb] at hfree
  | @inspectEvicted t now j ht hb =>
    exact hslot ht rfl (fun k hk => by simp [hk]) (fun k hk => iff_of_false hk.symm id)
      (not_lost_of_free hb) (not_lost_of_owns (t := t) (by simp [Phase.Owns]))
      (by simp only [LosesSlot, ht, not_false_eq_true])
  | @claimItem t now j x ht hb hi =>
    have hkeep : ¬ LosesSlot s i (.advance t) := by
      simp only [LosesSlot, ht]
      rintro ⟨rfl, -, hnone⟩
      simp [hi] at hnone
    exact hslot ht rfl (fun k hk => by simp [hk]) (fun k hk => iff_of_false hk.symm id)
      (not_lost_of_free hb) (not_lost_of_owns (t := t) (by simp [Phase.Owns])) hkeep
  | @claimMissing t now j ht hb hi =>
    have hloses : LosesSlot s i (.advance t) ↔ j = i := by
      simp only [LosesSlot, ht]
      refine ⟨And.left, ?_⟩
      rintro rfl
      exact ⟨rfl, hb, by simp [hi]⟩
    by_cases hj : j = i
    · subst hj
      refine iff_of_true ⟨by simp, fun t' ht' => ?_⟩ (.inr (hloses.mpr rfl))
      by_cases htt : t' = t
      · subst htt
        simp [Phase.Owns] at ht'
      · refine hinv.not_owns hb t' ?_
        simpa [htt] using ht'
    · exact hframe ht rfl (by simp [Ne.symm hj]) Iff.rfl (mt hloses.mp hj)
  | @storeNew t now j x ht =>
    refine hframe ht rfl ?_ Iff.rfl (by simp only [LosesSlot, ht, not_false_eq_true])
    by_cases hj : i = j
    · subst hj
      simp
    · simp [hj]
  | @unclaim t j e ht =>
    have hown : ¬ Lost s j := not_lost_of_owns (t := t) (by rw [ht]; rfl)
    exact hslot ht rfl (fun k hk => by simp [hk]) (fun k hk => iff_of_false id hk.symm) hown
      (not_lost_of_free (by simp)) (by simp only [LosesSlot, ht, not_false_eq_true])
  | @drop t now j x ht =>
    have hown : ¬ Lost s j := not_lost_of_owns (t := t) (by rw [ht]; rfl)
    exact hslot ht rfl (fun k hk => by simp [hk]) (fun k hk => iff_of_false id hk.symm) hown
      (not_lost_of_free (by simp)) (by simp only [LosesSlot, ht, not_false_eq_true])
  | @evict t now threshold count j ht hp hi hb =>
    refine hframe ht rfl ?_ Iff.rfl (by simp only [LosesSlot, ht, not_false_eq_true])
    by_cases hj : i = j
    · subst hj
      simp
    · simp [hj]

/-- **Run lemma.** A lost slot stays lost. -/
theorem lost_of_path {C : State n T Tid → Action T Tid → Prop} {i : Fin n} (hinv : Inv s)
    (h : Lost s i) (hp : (machine n T Tid idleSecs).Path C s as s') : Inv s' ∧ Lost s' i := by
  induction hp with
  | nil => exact ⟨hinv, h⟩
  | snoc _ _ hstep ih =>
    exact ⟨inv_of_step ih.1 hstep, (lost_of_step_iff ih.1 hstep i).mpr (.inl ih.2)⟩

/-- **A run loses no slot exactly when each of its steps keeps the slots.** -/
theorem not_lost_iff {C : State n T Tid → Action T Tid → Prop}
    (hinit : (machine n T Tid idleSecs).Init s₀)
    (hp : (machine n T Tid idleSecs).Path C s₀ as s) :
    (∀ i, ¬ Lost s i) ↔ (machine n T Tid idleSecs).Path KeepsSlots s₀ as s := by
  induction hp with
  | nil =>
    obtain ⟨now, items, rfl⟩ := hinit
    exact iff_of_true (fun i => not_lost_of_free rfl) .nil
  | @snoc s s' a as hp _ hstep ih =>
    have hinv := inv_of_reachable ((Machine.Reachable.init hinit).path hp)
    have hnone : (∀ i, ¬ Lost s' i) ↔ (∀ i, ¬ Lost s i) ∧ KeepsSlots s a := by
      unfold KeepsSlots
      rw [← forall_and]
      exact forall_congr' fun i => by rw [lost_of_step_iff hinv hstep i, not_or]
    rw [hnone, ih, hp.concat_iff hstep]

/-! ### Evicted slots -/

/-- An `acquire` at the head of the loop body for a free slot, running alone, comes to own it. -/
theorem owns_of_free {u : Tid} {now : ℕ} {i : Fin n} (hu : s.threads u = .scan now i)
    (hfree : (s.slots i).busy = false) :
    ∃ as s', (machine n T Tid idleSecs).Path (fun _ _ => True) s as s' ∧
      (∀ a ∈ as, a = .advance u) ∧ (s'.threads u).Owns i := by
  have hscan : step idleSecs s (.advance u) = some (s.setThread u (.inspect now i)) := by
    simp [step, advance, hu, hfree]
  cases hi : (s.slots i).item with
  | none =>
    have hclaim : ∃ s', step idleSecs (s.setThread u (.inspect now i)) (.advance u) = some s' ∧
        s'.threads u = .reinit now i := by
      simp [step, advance, hfree, hi]
    obtain ⟨s', hclaim, hs'⟩ := hclaim
    exact ⟨[.advance u, .advance u], s', .cons trivial hscan (.cons trivial hclaim .nil), by simp,
      by rw [hs']; rfl⟩
  | some x =>
    have hsee : step idleSecs (s.setThread u (.inspect now i)) (.advance u) =
        some ((s.setThread u (.inspect now i)).setThread u (.claim now i)) := by
      simp [step, advance, hfree, hi]
    have hclaim : ∃ s', step idleSecs ((s.setThread u (.inspect now i)).setThread u
        (.claim now i)) (.advance u) = some s' ∧ s'.threads u = .guard i x := by
      simp [step, advance, hfree, hi]
    obtain ⟨s', hclaim, hs'⟩ := hclaim
    exact ⟨[.advance u, .advance u, .advance u], s',
      .cons trivial hscan (.cons trivial hsee (.cons trivial hclaim .nil)), by simp,
      by rw [hs']; rfl⟩

/-- An `acquire` that runs alone comes to own the first free slot. -/
theorem owns_of_scan {u : Tid} {now k : ℕ} {i : Fin n} (hu : s.threads u = .scan now k)
    (hk : k ≤ i) (hfree : (s.slots i).busy = false) :
    ∃ as s', ∃ j ≤ i, (machine n T Tid idleSecs).Path (fun _ _ => True) s as s' ∧
      (∀ a ∈ as, a = .advance u) ∧ (s'.threads u).Owns j ∧ (s.slots j).busy = false := by
  induction hd : (i : ℕ) - k generalizing s k with
  | zero =>
    obtain rfl : k = i := by omega
    obtain ⟨as, s', hp, has, howns⟩ := owns_of_free hu hfree
    exact ⟨as, s', i, le_rfl, hp, has, howns, hfree⟩
  | succ d ih =>
    have hn : k < n := by omega
    cases hb : (s.slots ⟨k, hn⟩).busy with
    | false =>
      obtain ⟨as, s', hp, has, howns⟩ := owns_of_free (i := ⟨k, hn⟩) hu hb
      exact ⟨as, s', ⟨k, hn⟩, hk, hp, has, howns, hb⟩
    | true =>
      have hscan : step idleSecs s (.advance u) = some (s.setThread u (.scan now (k + 1))) := by
        simp [step, advance, hu, hn, hb]
      obtain ⟨as, s', j, hj, hp, has, howns, hjfree⟩ :=
        ih (s := s.setThread u (.scan now (k + 1))) (k := k + 1) (by simp) (by omega) hfree
          (by omega)
      exact ⟨.advance u :: as, s', j, hj, .cons trivial hscan hp, by simpa using has, howns,
        hjfree⟩

/-- A free slot can be claimed. -/
theorem claimable_of_free {i : Fin n} (hfree : (s.slots i).busy = false) :
    Claimable idleSecs s i := by
  intro u hu
  have hbegin : step idleSecs s (.beginAcquire u) = some (s.setThread u (.scan s.clock 0)) := by
    simp [step, hu]
  have hscan : (s.setThread u (.scan s.clock 0)).threads u = .scan s.clock 0 := by simp
  obtain ⟨as, s', j, hj, hp, has, howns, hjfree⟩ := owns_of_scan hscan (Nat.zero_le i) hfree
  refine ⟨as, s', j, hj, .cons trivial hbegin hp, has, howns, fun hearlier => ?_⟩
  by_contra hne
  have hbusy := hearlier j (lt_of_le_of_ne hj hne)
  simp [State.setThread_slots, hbusy] at hjfree

/-! ### Failed cold starts -/

/-- The step ends an `acquire` of thread `t` that re-initialises slot `i`, without a guard. -/
def FailsColdStart (s : State n T Tid) (t : Tid) (i : Fin n) (s' : State n T Tid) : Prop :=
  (s.threads t).Cold ∧ (s.threads t).Owns i ∧ (s'.threads t).Outside

/-- **A failed cold start.** The step that ends it leaves the slot evicted and claimable exactly
when the factory did not panic. -/
theorem evictedIdle_iff (hinv : Inv s) (hstep : step idleSecs s a = some s') {t : Tid} {i : Fin n}
    (h : FailsColdStart s t i s') :
    (EvictedIdle s' i ∧ Claimable idleSecs s' i ↔ FactoryTotal s a) ∧
      (¬ FactoryTotal s a → Lost s' i) := by
  obtain ⟨hcold, howns, hout⟩ := h
  have hat : a.thread = some t := by
    by_contra hat
    rw [threads_of_step hstep hat] at hout
    revert hcold hout
    cases s.threads t <;> simp [Phase.Cold, Phase.Outside]
  have hinv' := inv_of_step hinv hstep
  have hitem := (hinv.slot i).empty (hinv.busy howns)
  cases trans_of_step hstep with
  | tick => cases hat
  | @unclaim u j e hu =>
    obtain rfl := Option.some.inj hat
    rw [hu] at howns
    obtain rfl := howns
    refine ⟨iff_of_true ⟨⟨?_, ?_⟩, claimable_of_free ?_⟩ trivial, fun h => (h trivial).elim⟩
    · simpa using hitem
    · simp
    · simp
  | @factoryPanic u now j hu =>
    obtain rfl := Option.some.inj hat
    have hloses : LosesSlot s i (.factory u .panic) := by
      rw [hu] at howns
      simp only [LosesSlot, hu]
      exact howns
    have hlost := (lost_of_step_iff hinv hstep i).mpr (.inr hloses)
    exact ⟨iff_of_false (fun h => not_lost_of_free h.1.2 hlost) id, fun _ => hlost⟩
  | beginAcquire hu | beginSweepOff hu | beginSweep hu =>
    obtain rfl := Option.some.inj hat
    revert hcold hu
    cases s.threads _ <;> simp [Phase.Cold, Phase.Outside]
  | factoryOk | factoryErr | storeNew =>
    obtain rfl := Option.some.inj hat
    simp [Phase.Outside] at hout
  | _ hu =>
    obtain rfl := Option.some.inj hat
    rw [hu] at hcold
    exact hcold.elim

/-- **Failed cold starts.** After every run: the step that ends a failed cold start leaves the slot
evicted and claimable exactly when the factory did not panic, and otherwise no thread ever owns the
slot again; and while no `acquire` is in progress, all slots are settled exactly when each step of
the run kept the slots. -/
theorem failed_cold_start (n : ℕ) (T Tid : Type) [DecidableEq Tid] (idleSecs : ℕ)
    (s₀ s : State n T Tid) (as : List (Action T Tid))
    (hinit : (machine n T Tid idleSecs).Init s₀)
    (hp : (machine n T Tid idleSecs).Path (fun _ _ => True) s₀ as s) :
    (∀ t i a s', step idleSecs s a = some s' → FailsColdStart s t i s' →
      (EvictedIdle s' i ∧ Claimable idleSecs s' i ↔ FactoryTotal s a) ∧
      (¬ FactoryTotal s a → ∀ bs s'', (machine n T Tid idleSecs).Path (fun _ _ => True) s' bs s'' →
        Lost s'' i)) ∧
    ((∀ t, ¬ (s.threads t).Acquiring) →
      ((∀ i, Settled s i) ↔ (machine n T Tid idleSecs).Path KeepsSlots s₀ as s)) := by
  have hinv := inv_of_reachable ((Machine.Reachable.init hinit).path hp)
  refine ⟨fun t i a s' hstep hfails => ?_, fun hno => ?_⟩
  · obtain ⟨hiff, hlost⟩ := evictedIdle_iff hinv hstep hfails
    exact ⟨hiff, fun hpanic bs s'' hbs =>
      (lost_of_path (inv_of_step hinv hstep) (hlost hpanic) hbs).2⟩
  · rw [← not_lost_iff hinit hp]
    exact forall_congr' (settled_iff_not_lost hno)

/-- The item of `onePool` is evicted, and thread `false` calls the factory. -/
def evictedPool : List (Action ℕ Bool) :=
  evictItem ++ [.beginAcquire false, .advance false, .advance false]

/-- The factory returns an error, and the slot is evicted again and claimable. -/
theorem failed_cold_start_error :
    ∃ s s', (machine 1 ℕ Bool 1).Path (fun _ _ => True) onePool
        (evictedPool ++ [.factory false (.err "no memory")]) s ∧
      step 1 s (.advance false) = some s' ∧ FailsColdStart s false 0 s' ∧ EvictedIdle s' 0 ∧
      Claimable 1 s' 0 ∧ Settled s' 0 := by
  obtain ⟨s, hs, hphase, s', hstep, hends, hno, hfree⟩ :
      ∃ s ∈ (machine 1 ℕ Bool 1).runUnder (fun _ _ => True) onePool
          (evictedPool ++ [.factory false (.err "no memory")]),
        s.threads false = .unclaim 0 "no memory" ∧ ∃ s' ∈ step 1 s (.advance false),
          s'.threads false = .failed (.reinitFailed "no memory") ∧
          (∀ t, ¬ (s'.threads t).Acquiring) ∧ ∀ i, (s'.slots i).busy = false := by decide
  have hinit : (machine 1 ℕ Bool 1).Init onePool := ⟨0, fun _ => 7, rfl⟩
  have hp : (machine 1 ℕ Bool 1).Path (fun _ _ => True) onePool
      (evictedPool ++ [.factory false (.err "no memory")]) s := .of_runUnder hs
  have hp' : (machine 1 ℕ Bool 1).Path (fun _ _ => True) onePool
      (evictedPool ++ [.factory false (.err "no memory")] ++ [.advance false]) s' :=
    .snoc hp trivial hstep
  have hfails : FailsColdStart s false 0 s' :=
    ⟨by rw [hphase]; trivial, by rw [hphase]; rfl, by rw [hends]; rfl⟩
  obtain ⟨hevicted, hclaimable⟩ :=
    ((failed_cold_start 1 ℕ Bool 1 onePool s _ hinit hp).1 false 0 _ s' hstep hfails).1.mpr trivial
  refine ⟨s, s', hp, hstep, hfails, hevicted, hclaimable, ?_⟩
  refine ((failed_cold_start 1 ℕ Bool 1 onePool s' _ hinit hp').2 hno).mpr ?_ 0
  exact (not_lost_iff hinit hp').mp fun i => not_lost_of_free (hfree i)

/-- The factory panics: no `acquire` is in progress, the slot is neither idle nor evicted nor held
by a guard, and no later `acquire` comes to own it. -/
theorem not_settled_panic :
    ∃ s s', (machine 1 ℕ Bool 1).Path (fun _ _ => True) onePool evictedPool s ∧
      step 1 s (.factory false .panic) = some s' ∧ FailsColdStart s false 0 s' ∧
      (∀ t, ¬ (s'.threads t).Acquiring) ∧ ¬ EvictedIdle s' 0 ∧ ¬ Settled s' 0 ∧
      ∀ bs s'', (machine 1 ℕ Bool 1).Path (fun _ _ => True) s' bs s'' →
        ∀ t, ¬ (s''.threads t).Owns 0 := by
  obtain ⟨s, hs, hphase, s', hstep, hends, hno, hbusy, howner⟩ :
      ∃ s ∈ (machine 1 ℕ Bool 1).runUnder (fun _ _ => True) onePool evictedPool,
        s.threads false = .reinit 1 0 ∧ ∃ s' ∈ step 1 s (.factory false .panic),
          s'.threads false = .panicked false ∧ (∀ t, ¬ (s'.threads t).Acquiring) ∧
          (s'.slots 0).busy = true ∧ ∀ t, ¬ (s'.threads t).Owns 0 := by decide
  have hp : (machine 1 ℕ Bool 1).Path (fun _ _ => True) onePool _ s := .of_runUnder hs
  have hreach : (machine 1 ℕ Bool 1).Reachable (fun _ _ => True) s :=
    .of_runUnder ⟨0, fun _ => 7, rfl⟩ hs
  have hinv := inv_of_step (inv_of_reachable hreach) hstep
  refine ⟨s, s', hp, hstep, ⟨by rw [hphase]; trivial, by rw [hphase]; rfl, by rw [hends]; rfl⟩, hno,
    fun h => not_lost_of_free h.2 ⟨hbusy, howner⟩, ?_, fun bs s'' hbs =>
      (lost_of_path hinv ⟨hbusy, howner⟩ hbs).2.2⟩
  exact fun h => (settled_iff_not_lost hno 0).mp h ⟨hbusy, howner⟩

end OxEmbed.EvictablePool

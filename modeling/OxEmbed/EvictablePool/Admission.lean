import Mathlib.Data.Fintype.Option
import Mathlib.Data.Fintype.Powerset
import OxEmbed.EvictablePool.Ownership
import OxEmbed.Library.OrderedScan

/-!
# The pool never refuses an admitted caller

The worker hands out as many permits as the pool has slots, and a caller is inside `acquire` or
holds a guard only while it has a permit. With eviction disabled `acquire` then never returns
`AllBusy`, although it scans the slots once from left to right without waiting while slots behind
it are released and claimed again.

The position of a caller is the slot it looks at or holds. A caller moves past a slot only when it
sees the slot busy, that is, with another caller on it: the positions are an ordered scan
(`OxEmbed.OrderedScan`), whose counting invariant puts at most `n - k` callers at slot `k` and
after it.

## Main definitions

* `Phase.position` : the slot a caller looks at or holds.
* `Admitted` : a caller begins `acquire` only with fewer than `n` callers engaged.

## Main results

* `sparse_of_reachable` : the counting invariant of the scan.
* `not_allBusy_of_admitted` : no admitted caller is refused.
-/

namespace OxEmbed.EvictablePool

variable {n : ℕ} {T Tid : Type} {s s' : State n T Tid} {a : Action T Tid}

/-- The position of a thread in the scan: the slot it looks at or holds. -/
def Phase.position : Phase n T → Option ℕ
  | .scan _ i => some i
  | .inspect _ i | .claim _ i | .reinit _ i | .storeNew _ i _ | .unclaim i _ | .guard i _
  | .dropping _ i _ => some i
  | _ => none

/-- The sweep phases past the check of `idle_secs`. -/
def Phase.Sweeping : Phase n T → Prop
  | .sweepBusy .. | .sweepAge .. | .sweepLock .. => True
  | _ => False

/-- A caller begins `acquire` only when fewer than `n` callers are inside `acquire` or hold a
guard: the semaphore of the worker has a permit left. -/
def Admitted (s : State n T Tid) : Action T Tid → Prop
  | .beginAcquire _ => ∀ S : Finset Tid, (∀ t ∈ S, (s.threads t).Engaged) → S.card < n
  | _ => True

theorem Phase.Owns.position_eq {p : Phase n T} {i : Fin n} (h : p.Owns i) :
    p.position = some i := by
  cases p <;> simp only [Phase.Owns] at h <;> subst h <;> rfl

theorem Phase.engaged_of_position {p : Phase n T} {i : ℕ} (h : p.position = some i) :
    p.Engaged := by
  cases p <;> trivial

theorem Phase.position_of_outside {p : Phase n T} (h : p.Outside) : p.position = none := by
  cases p <;> first | rfl | cases h

variable [DecidableEq Tid]

/-- With eviction disabled no sweep gets past the check of `idle_secs`. -/
theorem not_sweeping_of_reachable {C : State n T Tid → Action T Tid → Prop}
    (hs : (machine n T Tid 0).Reachable C s) (t : Tid) : ¬ (s.threads t).Sweeping := by
  refine hs.invariant (P := fun s => ∀ t, ¬ (s.threads t).Sweeping) ?_ ?_ t
  · rintro _ ⟨now, items, rfl⟩ t
    exact id
  · intro s a s' h _ hstep t
    have hsweep {u : Tid} {p : Phase n T} (hu : s.threads u = p) : ¬ p.Sweeping := hu ▸ h u
    have hupdate {u : Tid} {p : Phase n T} (hp : ¬ p.Sweeping) :
        ¬ (Function.update s.threads u p t).Sweeping :=
      (Function.forall_update_iff s.threads fun _ p => ¬ p.Sweeping).2 ⟨hp, fun v _ => h v⟩ t
    cases trans_of_step hstep with
    | tick => exact h t
    | beginSweep _ h0 => exact absurd rfl h0
    | sweepBusy hu | sweepFree hu | sweepEnd hu | sweepOld hu | sweepYoung hu | evict hu
    | sweepKeep hu => exact absurd trivial (hsweep hu)
    | _ => exact hupdate id

/-- The phases of an `acquire` that re-initialises an evicted slot. -/
def Phase.Cold : Phase n T → Prop
  | .reinit .. | .storeNew .. | .unclaim .. => True
  | _ => False

/-- With eviction disabled a free slot has an item, and no slot is re-initialised. -/
theorem warm_of_reachable {C : State n T Tid → Action T Tid → Prop}
    (hs : (machine n T Tid 0).Reachable C s) :
    (∀ i, (s.slots i).busy = false → (s.slots i).item ≠ none) ∧ ∀ t, ¬ (s.threads t).Cold := by
  refine hs.invariant_of_reachable (P := fun s => (∀ i, (s.slots i).busy = false →
    (s.slots i).item ≠ none) ∧ ∀ t, ¬ (s.threads t).Cold) ?_ ?_
  · rintro _ ⟨now, items, rfl⟩
    exact ⟨fun i _ => by simp [fromItems, EvictableSlot.fresh], fun t => id⟩
  · rintro s a s' hr ⟨hitem, hcold⟩ - hstep
    have hthread {u : Tid} {p : Phase n T} (hp : ¬ p.Cold) (t : Tid) :
        ¬ (Function.update s.threads u p t).Cold :=
      (Function.forall_update_iff s.threads fun _ p => ¬ p.Cold).2 ⟨hp, fun v _ => hcold v⟩ t
    have hslot {i : Fin n} {v : EvictableSlot T} (hv : v.busy = false → v.item ≠ none)
        (j : Fin n) : (Function.update s.slots i v j).busy = false →
          (Function.update s.slots i v j).item ≠ none :=
      (Function.forall_update_iff s.slots fun _ v => v.busy = false → v.item ≠ none).2
        ⟨hv, fun k _ => hitem k⟩ j
    have hnot {u : Tid} {p : Phase n T} (hu : s.threads u = p) : ¬ p.Cold := hu ▸ hcold u
    cases trans_of_step hstep with
    | tick => exact ⟨hitem, hcold⟩
    | factoryOk hu | factoryErr hu | factoryPanic hu | storeNew hu | unclaim hu =>
      exact absurd trivial (hnot hu)
    | inspectEvicted hu hb hi | claimMissing hu hb hi => exact absurd hi (hitem _ hb)
    | claimItem => exact ⟨hslot (by simp), hthread id⟩
    | drop => exact ⟨hslot (by simp), hthread id⟩
    | @evict u _ _ _ i hu =>
      have hsweep := not_sweeping_of_reachable hr u
      rw [hu] at hsweep
      exact absurd trivial hsweep
    | _ => exact ⟨hitem, hthread id⟩

/-- With eviction disabled every busy slot has an owner on every schedule. -/
theorem accounted_of_evictionDisabled {C : State n T Tid → Action T Tid → Prop}
    (hs : (machine n T Tid 0).Reachable C s) : Accounted s := by
  refine accounted_of_reachable (hs.strengthen fun s a s' hs _ hstep => ⟨?_, fun i hi t _ => ?_⟩)
  · cases trans_of_step hstep with
    | @factoryPanic u now i hu =>
      have hcold := (warm_of_reachable hs).2 u
      rw [hu] at hcold
      exact hcold trivial
    | _ => trivial
  · cases a with
    | advance u =>
      have hsweep := not_sweeping_of_reachable hs u
      cases hu : s.threads u <;> simp only [RemovesItem, hu] at hi
      rw [hu] at hsweep
      exact hsweep trivial
    | _ => exact hi.elim

/-- **Run lemma.** At any time at most `n - k` callers look at or hold slot `k` or a later one. -/
theorem sparse_of_reachable
    (hs : (machine n T Tid 0).Reachable Admitted s) :
    OrderedScan.Sparse n fun t => (s.threads t).position := by
  refine hs.invariant_of_reachable
    (P := fun s => OrderedScan.Sparse n fun t => (s.threads t).position) ?_ ?_
  · rintro _ ⟨now, items, rfl⟩
    exact OrderedScan.sparse_of_outside fun _ => rfl
  · intro s a s' hr h hC hstep
    have hinv := inv_of_reachable hr
    have hacc := accounted_of_evictionDisabled hr
    -- a move to a phase at the same position, or out of the pool
    have hmove {u : Tid} {p : Phase n T} (hp : ∀ j, p.position = some j →
        (s.threads u).position = some j) :
        OrderedScan.Sparse n fun t => (Function.update s.threads u p t).position := by
      refine h.of_le fun t j hj => ⟨j, ?_, le_rfl⟩
      by_cases ht : t = u
      · subst ht
        exact hp j (by simpa using hj)
      · simpa [ht] using hj
    -- a step past the busy slot `i`, whose owner stays on it
    have hpass {u : Tid} {now : ℕ} {i : Fin n} (hu : (s.threads u).position = some ↑i)
        (hown : ∀ j, ¬ (s.threads u).Owns j) (hb : (s.slots i).busy = true) :
        OrderedScan.Sparse n fun t =>
          (Function.update s.threads u (.scan now (i + 1)) t).position := by
      obtain ⟨q, hq⟩ := hacc.owned i hb
      have hqu : q ≠ u := fun e => hown i (e ▸ hq)
      exact h.advance hqu hu hq.position_eq (by simp [Phase.position])
        fun t ht => by simp [ht]
    cases trans_of_step hstep with
    | tick => exact h
    | @beginAcquire u hu =>
      refine h.enter (Phase.position_of_outside hu) (by simp [Phase.position])
        (fun t ht => by simp [ht]) fun S hS => hC S fun t ht => ?_
      obtain ⟨i, hi, -⟩ := hS t ht
      exact Phase.engaged_of_position hi
    | @scanBusy u now i hu hi hb =>
      exact hpass (i := ⟨i, hi⟩) (by rw [hu]; rfl) (fun j hj => by rw [hu] at hj; exact hj) hb
    | @inspectBusy u now i hu hb =>
      exact hpass (by rw [hu]; rfl) (fun j hj => by rw [hu] at hj; exact hj) hb
    | @claimBusy u now i hu hb =>
      exact hpass (by rw [hu]; rfl) (fun j hj => by rw [hu] at hj; exact hj) hb
    | beginSweepOff | beginSweep | factoryPanic | scanEnd | claimMissing | unclaim | drop
    | sweepBusy | sweepFree | sweepEnd | sweepOld | sweepYoung | evict | sweepKeep =>
      exact hmove fun j hj => by cases hj
    | _ hu => exact hmove fun j hj => by rw [hu]; exact hj

/-- **Admitted callers are never refused.** In a pool with eviction disabled whose callers are
admitted, no `acquire` returns `AllBusy`. -/
theorem not_allBusy_of_admitted (n : ℕ) (T Tid : Type) [DecidableEq Tid] (s : State n T Tid)
    (hs : (machine n T Tid 0).Reachable Admitted s) (t : Tid) :
    s.threads t ≠ .failed .allBusy := by
  refine hs.invariant_of_reachable (P := fun s => ∀ t, s.threads t ≠ .failed .allBusy) ?_ ?_ t
  · rintro _ ⟨now, items, rfl⟩ t
    simp [fromItems]
  · intro s a s' hr h hC hstep t
    have hupdate {u : Tid} {p : Phase n T} (hp : p ≠ .failed .allBusy) :
        Function.update s.threads u p t ≠ .failed .allBusy :=
      (Function.forall_update_iff s.threads fun _ p => p ≠ .failed .allBusy).2
        ⟨hp, fun v _ => h v⟩ t
    cases trans_of_step hstep with
    | tick => exact h t
    | @scanEnd u now i hu hi =>
      -- a caller that has passed all slots would be at a position not below `n`
      have hlt := (sparse_of_reachable hr).lt (p := u) (i := i) (by rw [hu]; rfl)
      omega
    | _ => exact hupdate (by simp)

instance (p : Phase n T) : Decidable p.Engaged :=
  match p with
  | .scan .. | .inspect .. | .claim .. | .reinit .. | .storeNew .. | .unclaim .. | .guard ..
  | .dropping .. => instDecidableTrue
  | .idle | .failed _ | .panicked _ | .sweepBusy .. | .sweepAge .. | .sweepLock .. | .swept _ =>
    instDecidableFalse

instance [Fintype Tid] (s : State n T Tid) (a : Action T Tid) : Decidable (Admitted s a) :=
  match a with
  | .beginAcquire _ =>
    inferInstanceAs (Decidable (∀ S : Finset Tid, (∀ t ∈ S, (s.threads t).Engaged) → S.card < n))
  | .tick _ | .beginSweep .. | .factory .. | .beginDrop _ | .advance _ => instDecidableTrue

/-- The scan of the second caller passes the slot of the first one, which is then freed and claimed
again behind it by a third caller; the second caller goes on to the other slot. -/
def reclaim : List (Action ℕ (Option Bool)) :=
  [.beginAcquire none, .advance none, .advance none, .advance none, .beginAcquire (some false),
    .advance (some false), .beginDrop none, .advance none, .beginAcquire (some true),
    .advance (some true), .advance (some true), .advance (some true), .advance (some false),
    .advance (some false), .advance (some false)]

theorem not_allBusy_reclaim :
    ∃ s ∈ (machine 2 ℕ (Option Bool) 0).runUnder Admitted (fromItems 0 fun _ => 7) reclaim,
      s.threads (some false) = .guard 1 7 ∧ s.threads (some true) = .guard 0 7 ∧
      ∀ t, s.threads t ≠ .failed .allBusy := by
  obtain ⟨s, hs, hone, htwo⟩ : ∃ s ∈ (machine 2 ℕ (Option Bool) 0).runUnder Admitted
      (fromItems 0 fun _ => 7) reclaim,
      s.threads (some false) = .guard 1 7 ∧ s.threads (some true) = .guard 0 7 := by
    decide
  exact ⟨s, hs, hone, htwo, fun t =>
    not_allBusy_of_admitted 2 ℕ (Option Bool) s (.of_runUnder ⟨0, fun _ => 7, rfl⟩ hs) t⟩

end OxEmbed.EvictablePool

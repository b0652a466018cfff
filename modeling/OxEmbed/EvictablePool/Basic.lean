import Mathlib.Data.Fintype.Basic
import Mathlib.Logic.Function.Basic
import Mathlib.Tactic.Simps.Basic
import OxEmbed.Library.Machine

/-!
# The evictable session pool

The pool of `evictable_pool.rs`: a fixed array of slots, each an optional item behind a mutex, an
atomic busy flag and an atomic time of last use. Any number of threads run `acquire`, drop
guards, or sweep the slots with `evict_idle`. Each mutex critical section and each atomic
operation outside one is one step of the machine `machine`; a thread's program point, with its
local variables, is its `Phase`.

A critical section of `acquire` that finds the mutex poisoned recovers the inner value, so the
poison flag only matters to `evict_idle`, which skips a poisoned slot.

The fields `lastStored`, `coldCalls` and `coldFailures` of a state are history variables: no step
reads them.

## Main definitions

* `EvictableSlot`, `Phase`, `State`, `Action` : the data.
* `step`, `machine` : one atomic step, and the pool as a machine.
* `Phase.Owns` : the phases of a thread that owns a slot and will clear its busy flag.
* `Trans` : what a step can do, one constructor for each branch of the source.

## Main results

* `trans_of_step` : every step is one of the transitions `Trans`.
-/

namespace OxEmbed.EvictablePool

/-! ### Slots, threads and states -/

/-- Errors returned by `acquire`. -/
inductive AcquireError
  /-- All slots are currently in use. -/
  | allBusy
  /-- The factory returned an error when re-initialising an evicted slot. -/
  | reinitFailed (e : String)
  deriving DecidableEq, Repr

/-- A slot: an item with `busy` unset is idle, no item with `busy` unset is evicted, and no item
with `busy` set is held by a guard or by an acquire in progress. -/
structure EvictableSlot (T : Type) where
  /-- The value inside the mutex. -/
  item : Option T
  /-- Whether a panic unwound through the mutex. -/
  poisoned : Bool
  busy : Bool
  lastUsed : ℕ
  deriving DecidableEq, Repr

/-- The slot that `from_items` makes of an item. -/
def EvictableSlot.fresh {T : Type} (now : ℕ) (x : T) : EvictableSlot T :=
  ⟨some x, false, false, now⟩

/-- The program point of a thread, with its local variables. -/
inductive Phase (n : ℕ) (T : Type)
  /-- Outside the pool. -/
  | idle
  /-- `acquire`, at the head of the loop body for slot `i` (or past the last slot). -/
  | scan (now i : ℕ)
  /-- `acquire`, about to enter the critical section that sets `needs_reinit`. -/
  | inspect (now : ℕ) (i : Fin n)
  /-- `acquire`, having seen an item, about to enter the claiming critical section. -/
  | claim (now : ℕ) (i : Fin n)
  /-- `acquire`, running the factory for an evicted slot that it has marked busy. -/
  | reinit (now : ℕ) (i : Fin n)
  /-- `acquire`, about to store and take the factory's item. -/
  | storeNew (now : ℕ) (i : Fin n) (x : T)
  /-- `acquire`, about to clear `busy` after the factory failed. -/
  | unclaim (i : Fin n) (e : String)
  /-- Holding a live guard. -/
  | guard (i : Fin n) (x : T)
  /-- Dropping the guard, about to enter the critical section of `drop`. -/
  | dropping (now : ℕ) (i : Fin n) (x : T)
  /-- `acquire` returned an error. -/
  | failed (e : AcquireError)
  /-- The thread panicked inside `acquire`; `bug` when it reached a slot-item-missing `expect`. -/
  | panicked (bug : Bool)
  /-- `evict_idle`, at the head of the loop body for slot `i` (or past the last slot). -/
  | sweepBusy (now threshold count i : ℕ)
  /-- `evict_idle`, about to load `last_used`. -/
  | sweepAge (now threshold count : ℕ) (i : Fin n)
  /-- `evict_idle`, with the slot old enough, about to enter the critical section. -/
  | sweepLock (now threshold count : ℕ) (i : Fin n)
  /-- `evict_idle` returned its count. -/
  | swept (count : ℕ)
  deriving DecidableEq, Repr

variable {n : ℕ} {T Tid : Type}

/-- The phases in which a thread owns slot `i`: it marked the slot busy and will clear the flag. -/
def Phase.Owns (p : Phase n T) (i : Fin n) : Prop :=
  match p with
  | .reinit _ j | .storeNew _ j _ | .unclaim j _ | .guard j _ | .dropping _ j _ => j = i
  | _ => False

/-- The phases in which a live guard of slot `i` with item `x` exists. -/
def Phase.Holds (p : Phase n T) (i : Fin n) (x : T) : Prop :=
  match p with
  | .guard j y | .dropping _ j y => j = i ∧ y = x
  | _ => False

/-- The phases of an `acquire` that has seen the item of slot `i` and not yet claimed it. -/
def Phase.Claims (p : Phase n T) (i : Fin n) : Prop :=
  match p with
  | .claim _ j => j = i
  | _ => False

/-- The phases inside `acquire` or with a live guard. -/
def Phase.Engaged : Phase n T → Prop
  | .scan .. | .inspect .. | .claim .. | .reinit .. | .storeNew .. | .unclaim .. | .guard ..
  | .dropping .. => True
  | _ => False

/-- The phases from which a thread may call into the pool. -/
def Phase.Outside : Phase n T → Bool
  | .idle | .failed _ | .panicked _ | .swept _ => true
  | _ => false

/-- The state of a pool with `n` slots used by threads `Tid`. -/
structure State (n : ℕ) (T Tid : Type) where
  slots : Fin n → EvictableSlot T
  threads : Tid → Phase n T
  /-- The clock read by `unix_now_secs`. -/
  clock : ℕ
  /-- History: the item last stored in each slot. -/
  lastStored : Fin n → T
  /-- History: the threads that called the factory for each slot since its last eviction. -/
  coldCalls : Fin n → List Tid
  /-- History: how many of those calls returned `Err`. -/
  coldFailures : Fin n → ℕ

/-- What a call of the factory does. -/
inductive FactoryOutcome (T : Type)
  | ok (x : T)
  | err (e : String)
  | panic
  deriving DecidableEq, Repr

/-- The actions of a schedule. -/
inductive Action (T Tid : Type)
  /-- The clock moves on. -/
  | tick (d : ℕ)
  | beginAcquire (t : Tid)
  | beginSweep (t : Tid) (threshold : ℕ)
  /-- The factory call of thread `t` ends. -/
  | factory (t : Tid) (o : FactoryOutcome T)
  /-- The guard of thread `t` goes out of scope. -/
  | beginDrop (t : Tid)
  /-- Thread `t` performs its next atomic operation or critical section. -/
  | advance (t : Tid)
  deriving DecidableEq, Repr

namespace State

variable [DecidableEq Tid] (s : State n T Tid)

@[simps] def setThread (t : Tid) (p : Phase n T) : State n T Tid :=
  { s with threads := Function.update s.threads t p }

@[simps] def setSlot (i : Fin n) (v : EvictableSlot T) : State n T Tid :=
  { s with slots := Function.update s.slots i v }

/-- Record that `x` was stored in slot `i`. -/
@[simps] def recordStore (i : Fin n) (x : T) : State n T Tid :=
  { s with lastStored := Function.update s.lastStored i x }

/-- Record that thread `t` calls the factory for slot `i`. -/
@[simps] def recordColdCall (i : Fin n) (t : Tid) : State n T Tid :=
  { s with coldCalls := Function.update s.coldCalls i (s.coldCalls i ++ [t]) }

@[simps] def recordColdFailure (i : Fin n) : State n T Tid :=
  { s with coldFailures := Function.update s.coldFailures i (s.coldFailures i + 1) }

/-- Record that slot `i` was evicted. -/
@[simps] def recordEviction (i : Fin n) : State n T Tid :=
  { s with
    coldCalls := Function.update s.coldCalls i []
    coldFailures := Function.update s.coldFailures i 0 }

end State

/-! ### One step -/

variable [DecidableEq Tid]

/-- The next atomic operation of a thread in the middle of `acquire`, `drop` or `evict_idle`. -/
def advance (s : State n T Tid) (t : Tid) : Option (State n T Tid) :=
  match s.threads t with
  | .scan now i =>
    -- `if slot.busy.load(..) { continue; }`, or the end of the loop
    if h : i < n then
      if (s.slots ⟨i, h⟩).busy then some (s.setThread t (.scan now (i + 1)))
      else some (s.setThread t (.inspect now ⟨i, h⟩))
    else some (s.setThread t (.failed .allBusy))
  | .inspect now i =>
    if (s.slots i).busy then some (s.setThread t (.scan now (i + 1)))
    else if (s.slots i).item.isNone then
      some (((s.setSlot i { s.slots i with busy := true }).recordColdCall i t).setThread t
        (.reinit now i))
    else some (s.setThread t (.claim now i))
  | .claim now i =>
    if (s.slots i).busy then some (s.setThread t (.scan now (i + 1)))
    else match (s.slots i).item with
      | some x =>
        some ((s.setSlot i { s.slots i with item := none, busy := true, lastUsed := now }).setThread
          t (.guard i x))
      | none =>
        -- `guard.take().expect(..)` unwinds with the mutex held and `busy` set
        some ((s.setSlot i { s.slots i with
          poisoned := true, busy := true, lastUsed := now }).setThread t (.panicked true))
  | .storeNew now i x =>
    some (((s.setSlot i { s.slots i with item := none, lastUsed := now }).recordStore i x).setThread
      t (.guard i x))
  | .unclaim i e =>
    some ((s.setSlot i { s.slots i with busy := false }).setThread t (.failed (.reinitFailed e)))
  | .dropping now i x =>
    some (((s.setSlot i { s.slots i with
      item := some x, busy := false, lastUsed := now }).recordStore i x).setThread t .idle)
  | .sweepBusy now threshold count i =>
    if h : i < n then
      if (s.slots ⟨i, h⟩).busy then some (s.setThread t (.sweepBusy now threshold count (i + 1)))
      else some (s.setThread t (.sweepAge now threshold count ⟨i, h⟩))
    else some (s.setThread t (.swept count))
  | .sweepAge now threshold count i =>
    if threshold ≤ now - (s.slots i).lastUsed then
      some (s.setThread t (.sweepLock now threshold count i))
    else some (s.setThread t (.sweepBusy now threshold count (i + 1)))
  | .sweepLock now threshold count i =>
    if (s.slots i).poisoned = false ∧ (s.slots i).item.isSome ∧ (s.slots i).busy = false then
      some (((s.setSlot i { s.slots i with item := none }).recordEviction i).setThread t
        (.sweepBusy now threshold (count + 1) (i + 1)))
    else some (s.setThread t (.sweepBusy now threshold count (i + 1)))
  | _ => none

/-- One step of the pool whose `idle_secs` is `idleSecs`. -/
def step (idleSecs : ℕ) (s : State n T Tid) : Action T Tid → Option (State n T Tid)
  | .tick d => some { s with clock := s.clock + d }
  | .beginAcquire t =>
    if (s.threads t).Outside then some (s.setThread t (.scan s.clock 0)) else none
  | .beginSweep t threshold =>
    if (s.threads t).Outside then
      -- `if self.idle_secs == 0 { return 0; }`
      if idleSecs = 0 then some (s.setThread t (.swept 0))
      else some (s.setThread t (.sweepBusy s.clock threshold 0 0))
    else none
  | .factory t o =>
    match s.threads t, o with
    | .reinit now i, .ok x => some (s.setThread t (.storeNew now i x))
    | .reinit _ i, .err e => some ((s.recordColdFailure i).setThread t (.unclaim i e))
    | .reinit _ _, .panic => some (s.setThread t (.panicked false))
    | _, _ => none
  | .beginDrop t =>
    match s.threads t with
    | .guard i x => some (s.setThread t (.dropping s.clock i x))
    | _ => none
  | .advance t => advance s t

/-- The pool that `from_items` makes of some items, before any thread uses it. -/
def fromItems (now : ℕ) (items : Fin n → T) : State n T Tid where
  slots i := .fresh now (items i)
  threads _ := .idle
  clock := now
  lastStored := items
  coldCalls _ := []
  coldFailures _ := 0

/-- The pool as a machine. -/
def machine (n : ℕ) (T Tid : Type) [DecidableEq Tid] (idleSecs : ℕ) :
    Machine (State n T Tid) (Action T Tid) where
  Init s := ∃ now items, s = fromItems now items
  step := step idleSecs

/-- The condition that no call of the factory panics. -/
def FactoryTotal (_ : State n T Tid) : Action T Tid → Prop
  | .factory _ .panic => False
  | _ => True

/-- The action is a sweep that removes the item of slot `i`. -/
def RemovesItem (s : State n T Tid) (i : Fin n) : Action T Tid → Prop
  | .advance t =>
    match s.threads t with
    | .sweepLock _ _ _ j => j = i ∧ (s.slots i).poisoned = false ∧ (s.slots i).item.isSome ∧
        (s.slots i).busy = false
    | _ => False
  | _ => False

/-- No sweep removes the item of a slot while an `acquire` is between the critical section that
saw the item and the one that takes it. -/
def WindowRespected (s : State n T Tid) (a : Action T Tid) : Prop :=
  ∀ i, RemovesItem s i a → ∀ t, ¬ (s.threads t).Claims i

instance (p : Phase n T) (i : Fin n) : Decidable (p.Owns i) := by
  unfold Phase.Owns; cases p <;> exact inferInstance

instance (p : Phase n T) (i : Fin n) : Decidable (p.Claims i) := by
  unfold Phase.Claims; cases p <;> exact inferInstance

instance (s : State n T Tid) (a : Action T Tid) : Decidable (FactoryTotal s a) := by
  unfold FactoryTotal; split <;> exact inferInstance

instance (s : State n T Tid) (i : Fin n) (a : Action T Tid) : Decidable (RemovesItem s i a) := by
  unfold RemovesItem
  split
  · split <;> exact inferInstance
  · exact inferInstance

instance [Fintype Tid] (s : State n T Tid) (a : Action T Tid) : Decidable (WindowRespected s a) :=
  inferInstanceAs (Decidable (∀ i, RemovesItem s i a → ∀ t, ¬ (s.threads t).Claims i))

/-! ### What a step can do -/

/-- What one step can do, one constructor for each branch of the source. -/
inductive Trans (idleSecs : ℕ) (s : State n T Tid) : Action T Tid → State n T Tid → Prop
  | tick (d : ℕ) : Trans idleSecs s (.tick d) { s with clock := s.clock + d }
  | beginAcquire {t} (ht : (s.threads t).Outside) :
      Trans idleSecs s (.beginAcquire t) (s.setThread t (.scan s.clock 0))
  | beginSweepOff {t threshold} (ht : (s.threads t).Outside) (h : idleSecs = 0) :
      Trans idleSecs s (.beginSweep t threshold) (s.setThread t (.swept 0))
  | beginSweep {t threshold} (ht : (s.threads t).Outside) (h : idleSecs ≠ 0) :
      Trans idleSecs s (.beginSweep t threshold)
        (s.setThread t (.sweepBusy s.clock threshold 0 0))
  | factoryOk {t now i x} (ht : s.threads t = .reinit now i) :
      Trans idleSecs s (.factory t (.ok x)) (s.setThread t (.storeNew now i x))
  | factoryErr {t now i e} (ht : s.threads t = .reinit now i) :
      Trans idleSecs s (.factory t (.err e)) ((s.recordColdFailure i).setThread t (.unclaim i e))
  | factoryPanic {t now i} (ht : s.threads t = .reinit now i) :
      Trans idleSecs s (.factory t .panic) (s.setThread t (.panicked false))
  | beginDrop {t i x} (ht : s.threads t = .guard i x) :
      Trans idleSecs s (.beginDrop t) (s.setThread t (.dropping s.clock i x))
  | scanBusy {t now i} (ht : s.threads t = .scan now i) (h : i < n)
      (hb : (s.slots ⟨i, h⟩).busy = true) :
      Trans idleSecs s (.advance t) (s.setThread t (.scan now (i + 1)))
  | scanFree {t now i} (ht : s.threads t = .scan now i) (h : i < n)
      (hb : (s.slots ⟨i, h⟩).busy = false) :
      Trans idleSecs s (.advance t) (s.setThread t (.inspect now ⟨i, h⟩))
  | scanEnd {t now i} (ht : s.threads t = .scan now i) (h : n ≤ i) :
      Trans idleSecs s (.advance t) (s.setThread t (.failed .allBusy))
  | inspectBusy {t now i} (ht : s.threads t = .inspect now i) (hb : (s.slots i).busy = true) :
      Trans idleSecs s (.advance t) (s.setThread t (.scan now (i + 1)))
  | inspectEvicted {t now i} (ht : s.threads t = .inspect now i) (hb : (s.slots i).busy = false)
      (hi : (s.slots i).item = none) :
      Trans idleSecs s (.advance t)
        (((s.setSlot i { s.slots i with busy := true }).recordColdCall i t).setThread t
          (.reinit now i))
  | inspectItem {t now i} (ht : s.threads t = .inspect now i) (hb : (s.slots i).busy = false)
      (hi : (s.slots i).item ≠ none) :
      Trans idleSecs s (.advance t) (s.setThread t (.claim now i))
  | claimBusy {t now i} (ht : s.threads t = .claim now i) (hb : (s.slots i).busy = true) :
      Trans idleSecs s (.advance t) (s.setThread t (.scan now (i + 1)))
  | claimItem {t now i x} (ht : s.threads t = .claim now i) (hb : (s.slots i).busy = false)
      (hi : (s.slots i).item = some x) :
      Trans idleSecs s (.advance t)
        ((s.setSlot i { s.slots i with item := none, busy := true, lastUsed := now }).setThread t
          (.guard i x))
  | claimMissing {t now i} (ht : s.threads t = .claim now i) (hb : (s.slots i).busy = false)
      (hi : (s.slots i).item = none) :
      Trans idleSecs s (.advance t)
        ((s.setSlot i { s.slots i with
          poisoned := true, busy := true, lastUsed := now }).setThread t (.panicked true))
  | storeNew {t now i x} (ht : s.threads t = .storeNew now i x) :
      Trans idleSecs s (.advance t)
        (((s.setSlot i { s.slots i with item := none, lastUsed := now }).recordStore i
          x).setThread t (.guard i x))
  | unclaim {t i e} (ht : s.threads t = .unclaim i e) :
      Trans idleSecs s (.advance t)
        ((s.setSlot i { s.slots i with busy := false }).setThread t (.failed (.reinitFailed e)))
  | drop {t now i x} (ht : s.threads t = .dropping now i x) :
      Trans idleSecs s (.advance t)
        (((s.setSlot i { s.slots i with
          item := some x, busy := false, lastUsed := now }).recordStore i x).setThread t .idle)
  | sweepBusy {t now threshold count i} (ht : s.threads t = .sweepBusy now threshold count i)
      (h : i < n) (hb : (s.slots ⟨i, h⟩).busy = true) :
      Trans idleSecs s (.advance t) (s.setThread t (.sweepBusy now threshold count (i + 1)))
  | sweepFree {t now threshold count i} (ht : s.threads t = .sweepBusy now threshold count i)
      (h : i < n) (hb : (s.slots ⟨i, h⟩).busy = false) :
      Trans idleSecs s (.advance t) (s.setThread t (.sweepAge now threshold count ⟨i, h⟩))
  | sweepEnd {t now threshold count i} (ht : s.threads t = .sweepBusy now threshold count i)
      (h : n ≤ i) : Trans idleSecs s (.advance t) (s.setThread t (.swept count))
  | sweepOld {t now threshold count i} (ht : s.threads t = .sweepAge now threshold count i)
      (h : threshold ≤ now - (s.slots i).lastUsed) :
      Trans idleSecs s (.advance t) (s.setThread t (.sweepLock now threshold count i))
  | sweepYoung {t now threshold count i} (ht : s.threads t = .sweepAge now threshold count i)
      (h : now - (s.slots i).lastUsed < threshold) :
      Trans idleSecs s (.advance t) (s.setThread t (.sweepBusy now threshold count (i + 1)))
  | evict {t now threshold count i} (ht : s.threads t = .sweepLock now threshold count i)
      (hp : (s.slots i).poisoned = false) (hi : (s.slots i).item ≠ none)
      (hb : (s.slots i).busy = false) :
      Trans idleSecs s (.advance t)
        (((s.setSlot i { s.slots i with item := none }).recordEviction i).setThread t
          (.sweepBusy now threshold (count + 1) (i + 1)))
  | sweepKeep {t now threshold count i} (ht : s.threads t = .sweepLock now threshold count i)
      (h : (s.slots i).poisoned = true ∨ (s.slots i).item = none ∨ (s.slots i).busy = true) :
      Trans idleSecs s (.advance t) (s.setThread t (.sweepBusy now threshold count (i + 1)))

variable {idleSecs : ℕ} {s s' : State n T Tid} {a : Action T Tid}

private theorem trans_of_advance {t : Tid} (h : advance s t = some s') :
    Trans idleSecs s (.advance t) s' := by
  unfold advance at h
  cases ht : s.threads t with
  | scan now i =>
    simp only [ht] at h
    by_cases hi : i < n
    · rw [dif_pos hi] at h
      split at h <;> cases h
      · exact .scanBusy ht hi ‹_›
      · exact .scanFree ht hi (Bool.eq_false_iff.mpr ‹_›)
    · rw [dif_neg hi] at h
      cases h
      exact .scanEnd ht (Nat.not_lt.mp hi)
  | inspect now i =>
    simp only [ht] at h
    split at h
    · cases h
      exact .inspectBusy ht ‹_›
    · have hb : (s.slots i).busy = false := Bool.eq_false_iff.mpr ‹_›
      split at h <;> cases h
      · exact .inspectEvicted ht hb (Option.isNone_iff_eq_none.mp ‹_›)
      · exact .inspectItem ht hb (fun hn => by simp [hn] at *)
  | claim now i =>
    simp only [ht] at h
    split at h
    · cases h
      exact .claimBusy ht ‹_›
    · have hb : (s.slots i).busy = false := Bool.eq_false_iff.mpr ‹_›
      split at h <;> cases h
      · exact .claimItem ht hb ‹_›
      · exact .claimMissing ht hb ‹_›
  | storeNew now i x =>
    simp only [ht, Option.some.injEq] at h
    subst h
    exact .storeNew ht
  | unclaim i e =>
    simp only [ht, Option.some.injEq] at h
    subst h
    exact .unclaim ht
  | dropping now i x =>
    simp only [ht, Option.some.injEq] at h
    subst h
    exact .drop ht
  | sweepBusy now threshold count i =>
    simp only [ht] at h
    by_cases hi : i < n
    · rw [dif_pos hi] at h
      split at h <;> cases h
      · exact .sweepBusy ht hi ‹_›
      · exact .sweepFree ht hi (Bool.eq_false_iff.mpr ‹_›)
    · rw [dif_neg hi] at h
      cases h
      exact .sweepEnd ht (Nat.not_lt.mp hi)
  | sweepAge now threshold count i =>
    simp only [ht] at h
    split at h <;> cases h
    · exact .sweepOld ht ‹_›
    · exact .sweepYoung ht (Nat.not_le.mp ‹_›)
  | sweepLock now threshold count i =>
    simp only [ht] at h
    split at h <;> rename_i hc <;> cases h
    · exact .evict ht hc.1 (Option.isSome_iff_ne_none.mp hc.2.1) hc.2.2
    · refine .sweepKeep ht ?_
      by_contra hne
      simp only [not_or, Bool.not_eq_true] at hne
      exact hc ⟨hne.1, Option.isSome_iff_ne_none.mpr hne.2.1, hne.2.2⟩
  | idle | reinit | guard | failed | panicked | swept => simp only [ht, reduceCtorEq] at h

/-- Every step is one of the transitions `Trans`. -/
theorem trans_of_step (h : step idleSecs s a = some s') : Trans idleSecs s a s' := by
  cases a with
  | tick d =>
    cases h
    exact .tick d
  | beginAcquire t =>
    simp only [step] at h
    split at h <;> cases h
    exact .beginAcquire ‹_›
  | beginSweep t threshold =>
    simp only [step] at h
    split at h
    · split at h <;> cases h
      · exact .beginSweepOff ‹_› ‹_›
      · exact .beginSweep ‹_› ‹_›
    · cases h
  | factory t o =>
    simp only [step] at h
    split at h <;> cases h
    · exact .factoryOk ‹_›
    · exact .factoryErr ‹_›
    · exact .factoryPanic ‹_›
  | beginDrop t =>
    simp only [step] at h
    split at h <;> cases h
    exact .beginDrop ‹_›
  | advance t => exact trans_of_advance h

end OxEmbed.EvictablePool

import OxEmbed.Library.Machine

/-!
# Paced machines

A machine that keeps a clock in its state lets any amount of time pass between two steps. A
*pacing* says how long the steps take: which actions start a new stage, how long after the start of
a stage an action waits at the least, and how long a stage lasts at the most. The paced machine
remembers the start of its stage; it performs no action too early, and lets no time pass when the
stage is due. A machine without a clock gets one next to its state.

## Main definitions

* `Pacing` : how long the steps of a machine take.
* `Paced` : a state, and the start of its stage.
* `Pacing.machine` : the machine with the pacing.
* `Machine.clocked` : a machine with a clock next to its state.

## Main results

* `Pacing.step_eq_some_iff` : the steps of the paced machine.
* `Pacing.reachable` : a state that the paced machine reaches is one that the machine reaches.
* `Pacing.inTime_of_reachable` : no stage lasts too long.
-/

namespace OxEmbed

universe u v

/-- How long the steps of a machine take. -/
structure Pacing (σ : Type u) (α : Type v) where
  clock : σ → ℕ
  /-- The action starts a new stage. -/
  starts : σ → α → Bool
  /-- The action waits this long from the start of the stage. -/
  earliest : σ → α → ℕ
  /-- The stage lasts this long, unless there is no bound. -/
  latest : σ → Option ℕ

/-- A state, and the start of its stage. -/
structure Paced (σ : Type u) where
  state : σ
  since : ℕ

namespace Pacing

variable {σ : Type u} {α : Type v} (P : Pacing σ α) (M : Machine σ α)

/-- The stage has not lasted too long. -/
def InTime (t : Paced σ) : Prop := ∀ d ∈ P.latest t.state, P.clock t.state ≤ t.since + d

instance (t : Paced σ) : Decidable (P.InTime t) :=
  inferInstanceAs (Decidable (∀ d ∈ P.latest t.state, P.clock t.state ≤ t.since + d))

/-- The state after an action, with the start of its stage. -/
def next (t : Paced σ) (a : α) (s : σ) : Paced σ :=
  ⟨s, if P.starts t.state a then P.clock s else t.since⟩

/-- The machine with the pacing. -/
def machine : Machine (Paced σ) α where
  Init t := M.Init t.state ∧ t.since = P.clock t.state
  step t a :=
    if t.since + P.earliest t.state a ≤ P.clock t.state then
      ((M.step t.state a).map (P.next t a)).filter fun t' => P.InTime t'
    else none

variable {P M} {C : σ → α → Prop} {t t' : Paced σ} {a : α} {as : List α}

/-- **The steps of the paced machine** are those of the machine that are neither too early nor too
late. -/
theorem step_eq_some_iff :
    (P.machine M).step t a = some t' ↔ t.since + P.earliest t.state a ≤ P.clock t.state ∧
      ∃ s, M.step t.state a = some s ∧ P.next t a s = t' ∧ P.InTime t' := by
  rw [machine]
  dsimp only
  split
  next hready =>
    rw [Option.filter_eq_some_iff, Option.map_eq_some_iff]
    constructor
    · rintro ⟨⟨s, hs, hnext⟩, hin⟩
      exact ⟨hready, s, hs, hnext, of_decide_eq_true hin⟩
    · rintro ⟨-, s, hs, hnext, hin⟩
      exact ⟨⟨s, hs, hnext⟩, decide_eq_true hin⟩
  next hearly => exact ⟨fun h => (nomatch h), fun h => absurd h.1 hearly⟩

theorem state_of_step (h : (P.machine M).step t a = some t') :
    M.step t.state a = some t'.state := by
  obtain ⟨-, s, hs, rfl, -⟩ := step_eq_some_iff.1 h
  exact hs

/-- A state that is reached in time is reached. -/
theorem reachable (ht : (P.machine M).Reachable (fun t a => C t.state a) t) :
    M.Reachable C t.state := by
  induction ht with
  | init h => exact .init h.1
  | step _ hC h ih => exact .step ih hC (state_of_step h)

/-- **No stage lasts too long.** -/
theorem inTime_of_reachable {D : Paced σ → α → Prop} (ht : (P.machine M).Reachable D t) :
    P.InTime t := by
  cases ht with
  | init h =>
    intro d _
    rw [h.2]
    exact Nat.le_add_right _ d
  | step _ _ h =>
    obtain ⟨-, _, -, -, hin⟩ := step_eq_some_iff.1 h
    exact hin

/-- A stage starts in the past, when no step turns the clock back. -/
theorem since_le_of_reachable {D : Paced σ → α → Prop}
    (hclock : ∀ s a s', M.step s a = some s' → P.clock s ≤ P.clock s')
    (ht : (P.machine M).Reachable D t) : t.since ≤ P.clock t.state := by
  refine ht.invariant (fun t h => Nat.le_of_eq h.2) fun t a t' ih _ h => ?_
  obtain ⟨-, s, hs, rfl, -⟩ := step_eq_some_iff.1 h
  rw [next]
  dsimp only
  split
  · exact Nat.le_refl _
  · exact Nat.le_trans ih (hclock _ _ _ hs)

end Pacing

/-! ### Machines without a clock -/

/-- A state, and the time. -/
structure Clocked (σ : Type u) where
  state : σ
  clock : ℕ

/-- An action, or some time that passes. -/
inductive Tick (α : Type v)
  | wait (d : ℕ)
  | act (a : α)
  deriving DecidableEq

namespace Machine

variable {σ : Type u} {α : Type v} {M : Machine σ α} {c c' : Clocked σ} {b : Tick α}

/-- The machine with a clock next to its state; any time may pass between two actions. -/
def clocked (M : Machine σ α) : Machine (Clocked σ) (Tick α) where
  Init c := M.Init c.state
  step c
    | .wait d => some ⟨c.state, c.clock + d⟩
    | .act a => (M.step c.state a).map (Clocked.mk · c.clock)

/-- An action takes no time. -/
theorem clocked_act_eq_some_iff {a : α} :
    M.clocked.step c (.act a) = some c' ↔ ∃ s, M.step c.state a = some s ∧ ⟨s, c.clock⟩ = c' :=
  Option.map_eq_some_iff

theorem clock_le_of_clocked (h : M.clocked.step c b = some c') : c.clock ≤ c'.clock := by
  cases b with
  | wait d =>
    obtain rfl := Option.some.inj h
    exact Nat.le_add_right _ d
  | act a =>
    obtain ⟨s, -, rfl⟩ := clocked_act_eq_some_iff.1 h
    exact Nat.le_refl _

/-- The states that are reached with a clock are those that are reached. -/
theorem reachable_of_clocked {D : Clocked σ → Tick α → Prop} (hc : M.clocked.Reachable D c) :
    M.Reachable (fun _ _ => True) c.state := by
  induction hc with
  | init h => exact .init h
  | @step c c' b _ _ h ih =>
    cases b with
    | wait d =>
      obtain rfl := Option.some.inj h
      exact ih
    | act a =>
      obtain ⟨s, hs, rfl⟩ := clocked_act_eq_some_iff.1 h
      exact .step ih trivial hs

end Machine

end OxEmbed

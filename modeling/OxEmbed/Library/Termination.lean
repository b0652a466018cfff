import Mathlib.Algebra.Order.Group.Nat
import Mathlib.Data.Nat.Init
import OxEmbed.Library.Machine

/-!
# Variants of machines

Some actions of a machine make progress, the others are moves of its environment. A *variant* is a
natural number that no step increases and that every step of progress decreases. So a run has at
most as many steps of progress as the variant of its first state, and an infinite run in which
progress is made again and again, as long as the machine is not final, reaches a final state.

## Main definitions

* `Machine.Variant` : the variants, relative to an invariant.
* `Machine.Run` : the infinite runs.

## Main results

* `Machine.Variant.countP_le` : the number of steps of progress in a run.
* `Machine.Variant.exists_final` : an infinite run that is fair to progress reaches a final state.
-/

namespace OxEmbed

namespace Machine

universe u v

variable {σ : Type u} {α : Type v}

/-- Under the invariant `I`, no step increases `μ`, and the actions that meet `progress` decrease
it. -/
structure Variant (M : Machine σ α) (C : σ → α → Prop) (I : σ → Prop) (progress : α → Bool)
    (μ : σ → ℕ) : Prop where
  invariant : ∀ {s a s'}, I s → C s a → M.step s a = some s' → I s'
  le : ∀ {s a s'}, I s → C s a → M.step s a = some s' → μ s' ≤ μ s
  lt : ∀ {s a s'}, I s → C s a → progress a = true → M.step s a = some s' → μ s' < μ s

/-- An infinite run, as its states and its actions. -/
structure Run (M : Machine σ α) (C : σ → α → Prop) (st : ℕ → σ) (act : ℕ → α) : Prop where
  guard : ∀ n, C (st n) (act n)
  step : ∀ n, M.step (st n) (act n) = some (st (n + 1))

namespace Variant

variable {M : Machine σ α} {C : σ → α → Prop} {I : σ → Prop} {progress : α → Bool} {μ : σ → ℕ}
  (V : M.Variant C I progress μ)

include V

/-- **Run lemma.** A run has at most as many steps of progress as the variant of its first state. -/
theorem countP_le {s s' : σ} {as : List α} (hs : I s) (hp : M.Path C s as s') :
    I s' ∧ as.countP progress + μ s' ≤ μ s := by
  induction hp with
  | nil => exact ⟨hs, (Nat.zero_add _).le⟩
  | @snoc s₁ s₂ a as hp hC hstep ih =>
    obtain ⟨hI, hle⟩ := ih
    refine ⟨V.invariant hI hC hstep, ?_⟩
    rw [List.countP_append, List.countP_singleton]
    have hstep' := V.le hI hC hstep
    split
    · have hlt := V.lt hI hC ‹_› hstep
      omega
    · omega

variable {st : ℕ → σ} {act : ℕ → α} (hr : M.Run C st act)

include hr

/-- Along an infinite run the invariant holds, and the variant does not increase. -/
theorem mono {m n : ℕ} (hmn : m ≤ n) (hI : I (st m)) : I (st n) ∧ μ (st n) ≤ μ (st m) := by
  induction n, hmn using Nat.le_induction with
  | base => exact ⟨hI, le_rfl⟩
  | succ n _ ih =>
    obtain ⟨hI', hle⟩ := ih
    exact ⟨V.invariant hI' (hr.guard n) (hr.step n), (V.le hI' (hr.guard n) (hr.step n)).trans hle⟩

/-- **Termination.** An infinite run that makes progress again and again, unless it is final,
reaches a final state. -/
theorem exists_final (final : σ → Prop) (hI : I (st 0))
    (hfair : ∀ n, ∃ m, n ≤ m ∧ (final (st m) ∨ progress (act m) = true)) : ∃ n, final (st n) := by
  suffices h : ∀ k n, I (st n) → μ (st n) = k → ∃ m, final (st m) from h _ 0 hI rfl
  intro k
  induction k using Nat.strong_induction_on with
  | _ k ih =>
    rintro n hn rfl
    obtain ⟨m, hm, hfinal | hprogress⟩ := hfair n
    · exact ⟨m, hfinal⟩
    · obtain ⟨hI', hle⟩ := V.mono hr hm hn
      have hlt := V.lt hI' (hr.guard m) hprogress (hr.step m)
      exact ih _ (hlt.trans_le hle) (m + 1) (V.invariant hI' (hr.guard m) (hr.step m)) rfl

end Variant

end Machine

end OxEmbed

import Mathlib.Data.Set.Card

/-!
# Counters of the members of a set

A counter that is incremented when a task enters a set of tasks and decremented when one leaves
it holds the number of the tasks in the set. Steps change the membership of one task at a time.

## Main definitions

* `OneChange` : two sets that differ in the membership of one element at most.

## Main results

* `OneChange.encard` : a counter that follows the change of a set counts the changed set.
-/

namespace OxEmbed

open Set

variable {ι : Type} {A B : Set ι} {i : ι}

/-- The sets `A` and `B` have the same members, but for `i`, whose membership is `a` before and
`b` after. -/
structure OneChange (A B : Set ι) (i : ι) (a b : Bool) : Prop where
  before : i ∈ A ↔ a = true
  after : i ∈ B ↔ b = true
  others : ∀ j, j ≠ i → (j ∈ A ↔ j ∈ B)

namespace OneChange

variable {a b : Bool}

/-- Without `i` the sets are equal. -/
theorem sdiff_eq (h : OneChange A B i a b) : A \ {i} = B \ {i} := by
  ext j
  simp only [mem_sdiff, mem_singleton_iff]
  refine ⟨fun ⟨hA, hne⟩ => ⟨(h.others j hne).1 hA, hne⟩, fun ⟨hB, hne⟩ =>
    ⟨(h.others j hne).2 hB, hne⟩⟩

private theorem encard_eq_sdiff {b : Bool} (h : i ∈ A ↔ b = true) :
    A.encard = (A \ {i}).encard + (b.toNat : ℕ) := by
  match b, h with
  | true, h => exact (encard_sdiff_singleton_add_one (h.2 rfl)).symm
  | false, h =>
    have hi : i ∉ A := fun hi => Bool.false_ne_true (h.1 hi)
    rw [sdiff_singleton_eq_self hi]
    exact (add_zero _).symm

/-- **A counter that follows the change counts the changed set.** -/
theorem encard (h : OneChange A B i a b) {n m : ℕ} (hA : A.encard = n)
    (hm : a.toNat ≤ n → m + a.toNat = n + b.toNat) : B.encard = m := by
  have hsplitA := encard_eq_sdiff h.before
  have hsplitB := encard_eq_sdiff h.after
  rw [← h.sdiff_eq] at hsplitB
  have hfin : (A \ {i}).encard ≠ ⊤ := by
    intro htop
    rw [htop, hA, top_add] at hsplitA
    exact ENat.natCast_ne_top n hsplitA
  obtain ⟨d, hd⟩ := ENat.ne_top_iff_exists.1 hfin
  rw [← hd, hA] at hsplitA
  rw [← hd] at hsplitB
  norm_cast at hsplitA
  have hstep := hm (by omega)
  rw [hsplitB]
  norm_cast
  omega

/-- The size of a set is at least the membership of `i`. -/
theorem toNat_le (h : OneChange A B i a b) {n : ℕ} (hA : A.encard = n) : a.toNat ≤ n := by
  have hsplit := encard_eq_sdiff h.before
  rw [hA] at hsplit
  have hle : ((a.toNat : ℕ) : ℕ∞) ≤ n := hsplit ▸ le_add_self
  exact_mod_cast hle

end OneChange

end OxEmbed

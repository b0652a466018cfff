import Mathlib.Algebra.Order.Field.Basic
import Mathlib.Data.Nat.Cast.Order.Field
import Mathlib.Tactic.NormNum
import OxEmbed.Embed.Plan
import OxEmbed.Library.Bands
import OxEmbed.Library.Ranking

/-!
# The plan of the sub-batches is optimal

When the ratio of two lengths is computed exactly, the groups of `plan_subbatches` are the bands of
the sorted positions: lengths fit when their quotient is at most the ratio. Every group is a forward
pass, and no other grouping within the ratio has fewer of them.

## Main definitions

* `Arith.Exact` : the operations of the plan on the rationals that the values stand for.
* `InBand`, `OptimalPlan` : a group within the ratio, and what a plan owes.

## Main results

* `planSubbatches_eq_bands` : the plan is the list of the bands.
* `planSubbatches_optimal` : it is valid and optimal, or the single group if there is no ratio above
  one.
-/

namespace OxEmbed.Embed

open Pooling Bands Ranking

variable {F D : Type}

/-! ### Exact ratios -/

/-- The value `x` stands for the rational `val x`, or for NaN, and the operations of the plan are
exact. -/
structure ExactRatio (A : Arith F D) (val : F → Option ℚ) : Prop where
  isNan : ∀ x, A.isNan x = (val x).isNone
  one : val A.one = some 1
  ofNat : ∀ n, val (A.ofNat n) = some (n : ℚ)
  div : ∀ {x y p q}, val x = some p → val y = some q → q ≠ 0 → val (A.div x y) = some (p / q)
  le : ∀ {x y p q}, val x = some p → val y = some q → (A.le x y = true ↔ p ≤ q)

theorem exactArith_exactRatio : ExactRatio exactArith some where
  isNan _ := rfl
  one := rfl
  ofNat _ := rfl
  div hx hy _ := by
    rw [Option.some.inj hx, Option.some.inj hy]
    rfl
  le hx hy := by
    rw [Option.some.inj hx, Option.some.inj hy]
    exact decide_eq_true_iff

/-- The length of a text, counted as one at least. -/
def lenOf (lens : List ℕ) (i : ℕ) : ℕ := max (lens.getD i 0) 1

/-- The width is within the ratio of the length. -/
def Fits (r : ℚ) (widest len : ℕ) : Prop := (widest : ℚ) ≤ r * len

instance (r : ℚ) : DecidableRel (Fits r) := fun w l =>
  inferInstanceAs (Decidable ((w : ℚ) ≤ r * l))

/-- The quotient of any two lengths of a group is at most the ratio, so that of the largest and the
smallest is. -/
def InBand (lens : List ℕ) (r : ℚ) (group : List ℕ) : Prop :=
  ∀ i ∈ group, ∀ j ∈ group, (lenOf lens i : ℚ) / lenOf lens j ≤ r

/-- The groups are a partition of the positions into bands, sorted by length and then by position,
and no grouping of the positions into bands has fewer groups. -/
structure OptimalPlan (lens : List ℕ) (r : ℚ) (plan : List (List ℕ)) : Prop where
  perm : plan.flatten.Perm (List.range lens.length)
  nonempty : [] ∉ plan
  inBand : ∀ group ∈ plan, InBand lens r group
  sorted : plan.flatten.Pairwise (Before fun i => lens.getD i 0)
  minimal : ∀ groups : List (List ℕ), (∀ i < lens.length, ∃ group ∈ groups, i ∈ group) →
    (∀ group ∈ groups, InBand lens r group) → plan.length ≤ groups.length

variable {A : Arith F D} {val : F → Option ℚ} {lens : List ℕ} {ratio : F} {r : ℚ}

theorem lenOf_pos (lens : List ℕ) (i : ℕ) : (0 : ℚ) < lenOf lens i :=
  Nat.cast_pos.2 (Nat.lt_of_lt_of_le Nat.one_pos (Nat.le_max_right _ _))

theorem closeness_fits (hr : 1 < r) : Closeness (Fits r) where
  refl k := le_mul_of_one_le_left (Nat.cast_nonneg k) hr.le
  mono := by
    intro w w' k k' hfits hw hk
    have hw' : (w' : ℚ) ≤ w := Nat.cast_le.2 hw
    have hk' : (k : ℚ) ≤ k' := Nat.cast_le.2 hk
    exact hw'.trans (hfits.trans (mul_le_mul_of_nonneg_left hk' (zero_le_one.trans hr.le)))

theorem banded_iff_inBand {group : List ℕ} :
    Banded (Fits r) (lenOf lens) group ↔ InBand lens r group := by
  refine forall₄_congr fun i _ j _ => ?_
  rw [Fits, div_le_iff₀ (lenOf_pos lens j)]

/-! ### The plan as bands -/

section Bands

variable (hA : ExactRatio A val) (hratio : val ratio = some r)

include hA hratio

/-- The body of the loop, with its ratio computed exactly. -/
theorem planStep_eq (st : List (List ℕ) × List ℕ × ℕ) (i : ℕ) :
    planStep A lens ratio st i = bandStep (Fits r) (lenOf lens) st i := by
  obtain ⟨groups, current, widest⟩ := st
  cases current with
  | nil => rfl
  | cons j current =>
    have hlen := lenOf_pos lens i
    have hquot : val (A.div (A.ofNat widest) (A.ofNat (lenOf lens i))) =
        some ((widest : ℚ) / lenOf lens i) := hA.div (hA.ofNat _) (hA.ofNat _) hlen.ne'
    have hle : A.le (A.div (A.ofNat widest) (A.ofNat (lenOf lens i))) ratio = true ↔
        Fits r widest (lenOf lens i) := by
      rw [hA.le hquot hratio, div_le_iff₀ hlen]
      rfl
    rw [planStep, bandStep, if_neg (List.cons_ne_nil j current), ← lenOf]
    by_cases hfits : Fits r widest (lenOf lens i)
    · rw [if_pos (hle.2 hfits), if_pos hfits]
    · rw [if_neg (mt hle.1 hfits), if_neg hfits]

/-- **The plan is the list of the bands of the sorted positions.** -/
theorem planSubbatches_eq_bands (hr : 1 < r) :
    planSubbatches A lens ratio =
      bands (Fits r) (lenOf lens) 0 ((List.range lens.length).insertionSort (Longer lens)) := by
  have hnan : A.isNan ratio = false := by rw [hA.isNan, hratio]; rfl
  have hle : A.le ratio A.one = false := by
    rw [← Bool.not_eq_true, hA.le hratio hA.one]
    exact not_le.2 hr
  have hstep : planStep A lens ratio = bandStep (Fits r) (lenOf lens) :=
    funext fun st => funext fun i => planStep_eq hA hratio st i
  rw [planSubbatches, hnan, hle, hstep]
  split
  next hnil =>
    subst hnil
    rfl
  · rw [if_neg (by decide), bands]
    dsimp only
    generalize List.foldl _ _ _ = st
    obtain ⟨groups, current, widest⟩ := st
    cases current <;> rfl

end Bands

/-! ### The order of the positions -/

instance (lens : List ℕ) : Std.Total (Longer lens) := ⟨fun a b => by
  unfold Longer
  omega⟩

instance (lens : List ℕ) : IsTrans ℕ (Longer lens) := ⟨fun a b c hab hbc => by
  unfold Longer at *
  omega⟩

theorem pairwise_order (lens : List ℕ) :
    ((List.range lens.length).insertionSort (Longer lens)).Pairwise
      (Before fun i => lens.getD i 0) := by
  have hnodup : ((List.range lens.length).insertionSort (Longer lens)).Nodup :=
    (List.perm_insertionSort _ _).nodup_iff.2 List.nodup_range
  refine ((List.pairwise_insertionSort (Longer lens) _).and hnodup).imp fun {a b} hab => ?_
  obtain ⟨hlonger, hne⟩ := hab
  exact hlonger.imp_right fun h => ⟨h.1, lt_of_le_of_ne h.2 hne⟩

theorem lenOf_le_of_before {a b : ℕ} (h : Before (fun i => lens.getD i 0) a b) :
    lenOf lens b ≤ lenOf lens a := by
  have hle : lens.getD b 0 ≤ lens.getD a 0 := by
    rcases h with h | ⟨h, -⟩
    · exact h.le
    · exact h.ge
  exact max_le_max hle le_rfl

/-! ### The result -/

/-- **The plan is valid and optimal**, in exact arithmetic and for any ratio above one; for a ratio
up to one and for NaN, it is the single group of all positions. -/
theorem planSubbatches_optimal (hA : ExactRatio A val) (lens : List ℕ) (ratio : F) :
    (∀ r, val ratio = some r → 1 < r → OptimalPlan lens r (planSubbatches A lens ratio)) ∧
      (lens ≠ [] → (val ratio = none ∨ ∃ r, val ratio = some r ∧ r ≤ 1) →
        planSubbatches A lens ratio = [List.range lens.length]) := by
  refine ⟨fun r hratio hr => ?_, fun hne hoff => ?_⟩
  · have hclose := closeness_fits hr
    have horder := pairwise_order lens
    have hsorted := horder.imp fun {a b} h => lenOf_le_of_before h
    have hflat := flatten_bands hclose 0 hsorted
    have hperm := List.perm_insertionSort (Longer lens) (List.range lens.length)
    rw [planSubbatches_eq_bands hA hratio hr]
    exact {
      perm := by rwa [hflat]
      nonempty := ne_nil_of_mem_bands hclose hsorted
      inBand := fun group hgroup => banded_iff_inBand.1 (banded_of_mem_bands hclose hsorted hgroup)
      sorted := by rwa [hflat]
      minimal := fun groups hcover hbands => length_bands_le hclose hsorted
        (fun i hi => hcover i (List.mem_range.1 (hperm.subset hi)))
        fun group hgroup => banded_iff_inBand.2 (hbands group hgroup) }
  · have htest : (A.isNan ratio || A.le ratio A.one) = true := by
      rcases hoff with hnan | ⟨r, hratio, hr⟩
      · rw [hA.isNan, hnan]
        rfl
      · rw [(hA.le hratio hA.one).2 hr, Bool.or_true]
    rw [planSubbatches, if_neg hne, if_pos htest]

/-- Five texts and the ratio two. -/
theorem planSubbatches_optimal_five :
    OptimalPlan [500, 12, 300, 7, 0] 2 (planSubbatches exactArith [500, 12, 300, 7, 0] 2) :=
  (planSubbatches_optimal exactArith_exactRatio [500, 12, 300, 7, 0] 2).1 2 rfl (by norm_num)

example : planSubbatches exactArith [500, 12, 300, 7, 0] 2 = [[0, 2], [1, 3], [4]] := by
  decide +kernel

end OxEmbed.Embed

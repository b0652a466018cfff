import Mathlib.Algebra.Order.BigOperators.Group.List
import Mathlib.Algebra.Order.Ring.Nat
import Mathlib.Algebra.Group.Action.Defs
import Mathlib.Data.List.Perm.Basic
import Mathlib.Order.Monotone.Defs

/-!
# Items padded in groups

Items of different sizes are put into groups, and each group is padded to a width that its widest
item determines. The padding of a grouping is counted in cells, one row for each item.

## Main definitions

* `widest`, `cells` : the size of the widest item, and the cells of all groups.

## Main results

* `sum_size_le_cells` : the cells hold the items.
* `cells_le_of_perm` : no grouping has more cells than one group of all items.
-/

namespace OxEmbed.PaddedGroups

variable {ι : Type*} (size : ι → ℕ) (width : ℕ → ℕ)

/-- The size of the widest item. -/
def widest (group : List ι) : ℕ := (group.map size).foldl max 0

/-- The cells of the groups, each padded to the width for its widest item. -/
def cells (groups : List (List ι)) : ℕ :=
  (groups.map fun group => group.length * width (widest size group)).sum

variable {size width} {group items : List ι} {groups : List (List ι)} {bound : ℕ}

theorem foldl_max_le_iff {l : List ℕ} {a : ℕ} :
    l.foldl max a ≤ bound ↔ a ≤ bound ∧ ∀ x ∈ l, x ≤ bound := by
  induction l generalizing a with
  | nil => simp
  | cons x l ih => rw [List.foldl_cons, ih, max_le_iff, List.forall_mem_cons, and_assoc]

theorem widest_le_iff : widest size group ≤ bound ↔ ∀ i ∈ group, size i ≤ bound := by
  rw [widest, foldl_max_le_iff, List.forall_mem_map]
  exact and_iff_right (Nat.zero_le _)

theorem size_le_widest {i : ι} (hi : i ∈ group) : size i ≤ widest size group :=
  widest_le_iff.1 le_rfl i hi

/-- A part of the items is no wider than all of them. -/
theorem widest_le_of_subset (h : group ⊆ items) : widest size group ≤ widest size items :=
  widest_le_iff.2 fun _ hi => size_le_widest (h hi)

theorem widest_perm (h : group.Perm items) : widest size group = widest size items :=
  (widest_le_of_subset h.subset).antisymm (widest_le_of_subset h.symm.subset)

theorem cells_cons (group : List ι) (groups : List (List ι)) :
    cells size width (group :: groups) =
      group.length * width (widest size group) + cells size width groups := by
  rw [cells, List.map_cons, List.sum_cons, cells]

/-- **The cells hold the items**, if a width is never less than the size that it is for. -/
theorem sum_size_le_cells (hwidth : ∀ n ≤ bound, n ≤ width n)
    (hbound : ∀ group ∈ groups, ∀ i ∈ group, size i ≤ bound) :
    (groups.flatten.map size).sum ≤ cells size width groups := by
  induction groups with
  | nil => exact le_rfl
  | cons group groups ih =>
    rw [List.forall_mem_cons] at hbound
    have hrow : ∀ n ∈ group.map size, n ≤ width (widest size group) := by
      intro n hn
      obtain ⟨i, hi, rfl⟩ := List.mem_map.1 hn
      exact (size_le_widest hi).trans (hwidth _ (widest_le_iff.2 hbound.1))
    have hgroup := List.sum_le_card_nsmul _ _ hrow
    rw [List.length_map, smul_eq_mul] at hgroup
    rw [List.flatten_cons, List.map_append, List.sum_append, cells_cons]
    exact Nat.add_le_add hgroup (ih hbound.2)

/-- No group is wider than some bound on the widths. -/
theorem cells_le (h : ∀ group ∈ groups, width (widest size group) ≤ bound) :
    cells size width groups ≤ groups.flatten.length * bound := by
  induction groups with
  | nil => exact Nat.zero_le _
  | cons group groups ih =>
    rw [List.forall_mem_cons] at h
    rw [cells_cons, List.flatten_cons, List.length_append, Nat.add_mul]
    exact Nat.add_le_add (Nat.mul_le_mul_left _ h.1) (ih h.2)

/-- **No grouping has more cells than one group of all the items.** -/
theorem cells_le_of_perm (hwidth : Monotone width) (hperm : groups.flatten.Perm items) :
    cells size width groups ≤ items.length * width (widest size items) := by
  rw [← hperm.length_eq]
  refine cells_le fun group hgroup => hwidth (widest_le_of_subset fun i hi => ?_)
  exact hperm.subset (List.mem_flatten.2 ⟨group, hgroup, hi⟩)

end OxEmbed.PaddedGroups

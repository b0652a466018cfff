import OxEmbed.Pooling.MeanPool
import Mathlib.Data.List.Sort
import Mathlib.Data.Nat.Log

/-!
# The plan of the sub-batches

`plan_subbatches` of `model.rs` sorts the texts of a request by length and cuts them into groups
of similar lengths, longest first, so that each group is padded to its own width.
`round_up_seq_len` gives the width. The results of the groups are scattered back to the positions
of their texts.

## Main definitions

* `planSubbatches` : the groups, as lists of positions.
* `roundUpSeqLen` : the width of a batch.
* `scatter` : the results of a group, put at the positions of its texts.

## Main results

* `planSubbatches_perm` : every position is in exactly one group.
* `le_roundUpSeqLen` : no row is cut by its width.
* `getElem?_scatter` : what a scatter changes.
-/

namespace OxEmbed.Embed

open Pooling

variable {F D : Type}

/-! ### The groups -/

/-- The order in which the positions are taken: longest first, and then by position. -/
def Longer (lens : List ℕ) (a b : ℕ) : Prop :=
  lens.getD b 0 < lens.getD a 0 ∨ lens.getD a 0 = lens.getD b 0 ∧ a ≤ b

instance (lens : List ℕ) : DecidableRel (Longer lens) := fun _ _ => instDecidableOr

/-- The body of the loop: the finished groups, the current group and its widest length. -/
def planStep (A : Arith F D) (lens : List ℕ) (ratio : F)
    (st : List (List ℕ) × List ℕ × ℕ) (i : ℕ) : List (List ℕ) × List ℕ × ℕ :=
  let (groups, current, widest) := st
  let len := max (lens.getD i 0) 1
  if current = [] then (groups, current ++ [i], len)
  else if A.le (A.div (A.ofNat widest) (A.ofNat len)) ratio then (groups, current ++ [i], widest)
  else (groups ++ [current], [i], len)

/-- `plan_subbatches`. -/
def planSubbatches (A : Arith F D) (lens : List ℕ) (ratio : F) : List (List ℕ) :=
  if lens = [] then []
  else if A.isNan ratio || A.le ratio A.one then [List.range lens.length]
  else
    let order := (List.range lens.length).insertionSort (Longer lens)
    let (groups, current, _) := order.foldl (planStep A lens ratio) ([], [], 0)
    if current = [] then groups else groups ++ [current]

/-- A step adds its position to the groups, at the end. -/
theorem flatten_planStep (A : Arith F D) (lens : List ℕ) (ratio : F)
    (st : List (List ℕ) × List ℕ × ℕ) (i : ℕ) :
    (planStep A lens ratio st i).1.flatten ++ (planStep A lens ratio st i).2.1 =
      st.1.flatten ++ st.2.1 ++ [i] := by
  obtain ⟨groups, current, widest⟩ := st
  rw [planStep]
  dsimp only
  split
  · simp
  · split <;> simp

theorem flatten_foldl_planStep (A : Arith F D) (lens : List ℕ) (ratio : F) (order : List ℕ)
    (st : List (List ℕ) × List ℕ × ℕ) :
    (order.foldl (planStep A lens ratio) st).1.flatten ++
      (order.foldl (planStep A lens ratio) st).2.1 = st.1.flatten ++ st.2.1 ++ order := by
  induction order generalizing st with
  | nil => simp
  | cons i order ih => rw [List.foldl_cons, ih, flatten_planStep, List.append_assoc]; rfl

/-- **Every position is in exactly one group.** -/
theorem planSubbatches_perm (A : Arith F D) (lens : List ℕ) (ratio : F) :
    (planSubbatches A lens ratio).flatten.Perm (List.range lens.length) := by
  rw [planSubbatches]
  split
  · subst lens
    rfl
  split
  · rw [List.flatten_singleton]
  -- the groups, one after another, are the sorted positions
  have hflat := flatten_foldl_planStep A lens ratio
    ((List.range lens.length).insertionSort (Longer lens)) ([], [], 0)
  have hperm := List.perm_insertionSort (Longer lens) (List.range lens.length)
  rw [List.flatten_nil, List.nil_append, List.nil_append] at hflat
  rw [← hflat] at hperm
  dsimp only
  split
  · rename_i hcurrent
    rwa [hcurrent, List.append_nil] at hperm
  · rwa [List.flatten_append, List.flatten_singleton]

/-! ### The width -/

/-- `round_up_seq_len`: the next power of two, but no more than the cap. -/
def roundUpSeqLen (n cap : ℕ) : ℕ := if n ≤ 1 then 1 else min (2 ^ Nat.clog 2 n) cap

theorem le_roundUpSeqLen {n cap : ℕ} (h : n ≤ cap) : n ≤ roundUpSeqLen n cap := by
  rw [roundUpSeqLen]
  split
  · assumption
  · exact le_min (Nat.le_pow_clog (by decide) n) h

theorem roundUpSeqLen_le {n cap : ℕ} (h : 1 ≤ cap) : roundUpSeqLen n cap ≤ cap := by
  rw [roundUpSeqLen]
  split
  · exact h
  · exact Nat.min_le_right _ _

/-! ### Scattering -/

/-- `for (&i, vector) in group.iter().zip(vectors) { out[i] = vector }`. -/
def scatter {α : Type} (out : List α) (group : List ℕ) (vectors : List α) : List α :=
  (group.zip vectors).foldl (fun out p => out.set p.1 p.2) out

variable {α : Type} {out : List α} {group : List ℕ}

theorem length_scatter (vectors : List α) : (scatter out group vectors).length = out.length := by
  rw [scatter]
  induction group.zip vectors generalizing out with
  | nil => rfl
  | cons p ps ih => rw [List.foldl_cons, ih, List.length_set]

/-- Values that are given by the positions end up at the positions, and nothing else changes. -/
theorem getElem?_scatter (f : ℕ → α) (i : ℕ) (hi : i < out.length) :
    (scatter out group (group.map f))[i]? = if i ∈ group then some (f i) else out[i]? := by
  induction group generalizing out with
  | nil => rfl
  | cons k group ih =>
    have hcons : scatter out (k :: group) ((k :: group).map f) =
        scatter (out.set k (f k)) group (group.map f) := rfl
    rw [hcons, ih (by rwa [List.length_set])]
    by_cases hmem : i ∈ group
    · rw [if_pos hmem, if_pos (List.mem_cons_of_mem _ hmem)]
    · rw [if_neg hmem]
      by_cases hik : k = i
      · subst hik
        rw [List.getElem?_set_self hi, if_pos List.mem_cons_self]
      · rw [List.getElem?_set_ne hik, if_neg]
        simp only [List.mem_cons, not_or]
        exact ⟨fun h => hik h.symm, hmem⟩

end OxEmbed.Embed

import OxEmbed.Library.PaddedGroups
import OxEmbed.Embed.Subbatch

/-!
# The padding of a request

`EmbedModel::embed_tokens` counts the tokens of a request and the cells that its groups are padded
to, from the lengths of the texts and the plan. The tensors are built by the forward passes, from
the tokens themselves. The two counts of the cells are the same, and splitting a request never adds
a cell.

## Main definitions

* `realTokenCount`, `paddedCells` : the two numbers that the call counts.
* `tensorCells` : the cells of the tensors that are built for some batches.
* `roundUpSeqLen64` : the width in machine arithmetic.

## Main results

* `roundUpSeqLen_monotone` : the width grows with the length.
* `toNat_roundUpSeqLen64` : the width in machine arithmetic, for the lengths of a vector.
* `tensorCells_passes` : the cells that are counted are those of the tensors.
* `embed_tokens_padding` : a request has at least its tokens and at most one pass's cells.
-/

namespace OxEmbed.Embed

open Pooling PaddedGroups

variable {F D : Type}

/-! ### The counts -/

/-- The lengths of the texts, cut off at the length that the model takes. -/
def EmbedModel.cappedLens (M : EmbedModel F) (tokenIds : List (List UInt32)) : List ℕ :=
  tokenIds.map fun v => min v.length M.maxLen

/-- The tokens that are computed: `real`. -/
def EmbedModel.realTokenCount (M : EmbedModel F) (tokenIds : List (List UInt32)) : ℕ :=
  (M.cappedLens tokenIds).sum

/-- The cells of the groups: `padded`. -/
def EmbedModel.paddedCells (A : Arith F D) (M : EmbedModel F) (tokenIds : List (List UInt32)) :
    ℕ :=
  let lens := M.cappedLens tokenIds
  ((M.groups A tokenIds).map fun group =>
    let widest := (group.map fun i => lens.getD i 0).foldl max 0
    group.length * roundUpSeqLen widest M.maxLen).sum

/-- The cells of the id tensors for some batches. -/
def tensorCells (M : EmbedModel F) (batches : List (List (List UInt32))) : Except Failure ℕ := do
  let inputs ← batches.mapM fun ts => buildInputs ts.length (M.maxSeq ts)
    (buildTensorsFromIds ts ts.length (M.maxSeq ts) M.padId M.hasTokenTypeIds)
  return (inputs.map fun x => x.inputIds.data.length).sum

/-- `round_up_seq_len` on 64-bit numbers; above `2 ^ 63` the next power of two wraps to zero. -/
def roundUpSeqLen64 (n cap : UInt64) : UInt64 :=
  if n ≤ 1 then 1 else min (UInt64.ofNat (2 ^ Nat.clog 2 n.toNat)) cap

/-! ### The width -/

section Width

variable {n cap : ℕ}

theorem one_le_roundUpSeqLen (hcap : 1 ≤ cap) (n : ℕ) : 1 ≤ roundUpSeqLen n cap := by
  rw [roundUpSeqLen]
  split
  · exact le_rfl
  · exact le_min Nat.one_le_two_pow hcap

/-- **The width grows with the length.** -/
theorem roundUpSeqLen_monotone (hcap : 1 ≤ cap) : Monotone fun n => roundUpSeqLen n cap := by
  intro m n hmn
  dsimp only
  by_cases hm : m ≤ 1
  · rw [roundUpSeqLen, if_pos hm]
    exact one_le_roundUpSeqLen hcap n
  · have hn : ¬ n ≤ 1 := by omega
    have hpow : 2 ^ Nat.clog 2 m ≤ 2 ^ Nat.clog 2 n :=
      Nat.pow_le_pow_right (by decide) (Nat.clog_mono_right 2 hmn)
    rw [roundUpSeqLen, roundUpSeqLen, if_neg hm, if_neg hn]
    exact min_le_min_right cap hpow

/-- **Nothing wraps for the length of a vector**, which is below `2 ^ 63`. -/
theorem toNat_roundUpSeqLen64 {n cap : UInt64} (hn : n.toNat ≤ 2 ^ 63) :
    (roundUpSeqLen64 n cap).toNat = roundUpSeqLen n.toNat cap.toNat := by
  have hone : n ≤ 1 ↔ n.toNat ≤ 1 := UInt64.le_iff_toNat_le
  rw [roundUpSeqLen64, roundUpSeqLen]
  by_cases hle : n.toNat ≤ 1
  · rw [if_pos (hone.2 hle), if_pos hle]
    rfl
  rw [if_neg (mt hone.1 hle), if_neg hle]
  have hclog : Nat.clog 2 n.toNat ≤ 63 := Nat.clog_le_of_le_pow hn
  have hpow : 2 ^ Nat.clog 2 n.toNat ≤ 2 ^ 63 := Nat.pow_le_pow_right (by decide) hclog
  have hnat : (UInt64.ofNat (2 ^ Nat.clog 2 n.toNat)).toNat = 2 ^ Nat.clog 2 n.toNat :=
    UInt64.toNat_ofNat_of_lt (hpow.trans_lt (by decide))
  have hmin : min (UInt64.ofNat (2 ^ Nat.clog 2 n.toNat)) cap =
      if UInt64.ofNat (2 ^ Nat.clog 2 n.toNat) ≤ cap then UInt64.ofNat (2 ^ Nat.clog 2 n.toNat)
      else cap := rfl
  rw [hmin, Nat.min_def]
  simp only [UInt64.le_iff_toNat_le, hnat]
  split
  · exact hnat
  · rfl

end Width

/-! ### The tensors -/

section Tensors

variable {A : Arith F D} {M : EmbedModel F} {tokenIds ts : List (List UInt32)} {group : List ℕ}

/-- The width of a pass, from the lengths that are cut off. -/
theorem maxSeq_eq_foldl (M : EmbedModel F) (ts : List (List UInt32)) :
    M.maxSeq ts = roundUpSeqLen ((M.cappedLens ts).foldl max 0) M.maxLen := by
  have hmin (l : List (List UInt32)) (a : ℕ) : min ((l.map List.length).foldl max a) M.maxLen =
      (l.map fun v => min v.length M.maxLen).foldl max (min a M.maxLen) := by
    induction l generalizing a with
    | nil => rfl
    | cons v l ih =>
      rw [List.map_cons, List.foldl_cons, ih, List.map_cons, List.foldl_cons, min_max_distrib_right]
  rw [EmbedModel.maxSeq, hmin, Nat.zero_min]
  rfl

/-- The tensor of a batch has a row for each text. -/
theorem tensorCells_eq (M : EmbedModel F) (batches : List (List (List UInt32))) :
    tensorCells M batches = .ok (batches.map fun ts => ts.length * M.maxSeq ts).sum := by
  have hinputs : ∃ inputs : List Inputs, (batches.mapM fun ts =>
        buildInputs ts.length (M.maxSeq ts)
          (buildTensorsFromIds ts ts.length (M.maxSeq ts) M.padId M.hasTokenTypeIds)) =
        .ok inputs ∧ inputs.map (fun x => x.inputIds.data.length) =
          batches.map fun ts => ts.length * M.maxSeq ts := by
    induction batches with
    | nil => exact ⟨[], rfl, rfl⟩
    | cons ts batches ih =>
      obtain ⟨inputs, hmap, hcells⟩ := ih
      obtain ⟨x, hx, hrows, hcols, -⟩ :=
        buildInputs_eq ts (M.maxSeq ts) M.padId M.hasTokenTypeIds
      refine ⟨x :: inputs, ?_, ?_⟩
      · rw [List.mapM_cons, hx, hmap]
        rfl
      · rw [List.map_cons, List.map_cons, hcells, x.inputIds.length_data, hrows, hcols]
  obtain ⟨inputs, hmap, hcells⟩ := hinputs
  rw [tensorCells, hmap, ← hcells]
  rfl

theorem groups_perm (A : Arith F D) (M : EmbedModel F) (tokenIds : List (List UInt32)) :
    (M.groups A tokenIds).flatten.Perm (List.range tokenIds.length) := by
  have hperm := planSubbatches_perm A (M.cappedLens tokenIds) M.subbatchRatio
  rwa [EmbedModel.cappedLens, List.length_map] at hperm

variable (M tokenIds) in
/-- The length that a position stands for. -/
def EmbedModel.sizeAt (i : ℕ) : ℕ := (M.cappedLens tokenIds).getD i 0

/-- The cells that the call counts are those of the groups. -/
theorem paddedCells_eq : M.paddedCells A tokenIds =
    cells (M.sizeAt tokenIds) (fun n => roundUpSeqLen n M.maxLen) (M.groups A tokenIds) := rfl

theorem map_sizeAt_range :
    (List.range tokenIds.length).map (M.sizeAt tokenIds) = M.cappedLens tokenIds := by
  refine List.ext_getElem (by simp [EmbedModel.cappedLens]) fun i hi hi' => ?_
  rw [List.getElem_map, List.getElem_range, EmbedModel.sizeAt, List.getD_eq_getElem?_getD,
    List.getElem?_eq_getElem hi', Option.getD_some]

/-- A group is as wide as its tokens. -/
theorem maxSeq_subBatch (group : List ℕ) : M.maxSeq (subBatch tokenIds group) =
    roundUpSeqLen (widest (M.sizeAt tokenIds) group) M.maxLen := by
  have hlens : M.cappedLens (subBatch tokenIds group) = group.map (M.sizeAt tokenIds) := by
    rw [EmbedModel.cappedLens, subBatch, List.map_map]
    refine List.map_congr_left fun i _ => ?_
    rw [EmbedModel.sizeAt, EmbedModel.cappedLens, List.getD_eq_getElem?_getD, List.getElem?_map,
      Function.comp_apply, List.getD_eq_getElem?_getD]
    cases tokenIds[i]? with
    | none => exact Nat.zero_min _
    | some v => rfl
  rw [maxSeq_eq_foldl, hlens]
  rfl

/-- The whole request is as wide as the group of all its positions. -/
theorem maxSeq_eq_widest : M.maxSeq tokenIds =
    roundUpSeqLen (widest (M.sizeAt tokenIds) (List.range tokenIds.length)) M.maxLen := by
  rw [maxSeq_eq_foldl, widest, map_sizeAt_range]

/-- **The cells that the call counts are those of the tensors that its passes build.** -/
theorem tensorCells_passes (A : Arith F D) (M : EmbedModel F) (tokenIds : List (List UInt32)) :
    tensorCells M (M.passes A tokenIds) = .ok (M.paddedCells A tokenIds) := by
  have hperm := groups_perm A M tokenIds
  rw [tensorCells_eq, paddedCells_eq, EmbedModel.passes]
  congr 1
  by_cases hne : tokenIds = []
  · subst hne
    rw [if_pos rfl]
    rfl
  rw [if_neg hne]
  by_cases hgroups : (M.groups A tokenIds).length ≤ 1
  · rw [if_pos hgroups, List.map_singleton, List.sum_singleton]
    -- the only group holds every position
    rcases Nat.le_one_iff_eq_zero_or_eq_one.mp hgroups with hnone | hone
    · rw [List.eq_nil_of_length_eq_zero hnone] at hperm
      have hlen : 0 = tokenIds.length := by simpa using hperm.length_eq
      exact absurd (List.eq_nil_of_length_eq_zero hlen.symm) hne
    · obtain ⟨group, hg⟩ := List.length_eq_one_iff.mp hone
      rw [hg, List.flatten_singleton] at hperm
      rw [hg]
      rw [cells_cons, widest_perm hperm, hperm.length_eq, List.length_range, maxSeq_eq_widest]
      rfl
  · rw [if_neg hgroups, List.map_map, cells]
    refine congrArg List.sum (List.map_congr_left fun group _ => ?_)
    rw [Function.comp_apply, maxSeq_subBatch, subBatch, List.length_map]

/-- The cells hold the tokens. -/
theorem realTokenCount_le : M.realTokenCount tokenIds ≤ M.paddedCells A tokenIds := by
  have hperm := groups_perm A M tokenIds
  have hsum : M.realTokenCount tokenIds =
      ((M.groups A tokenIds).flatten.map (M.sizeAt tokenIds)).sum := by
    rw [(hperm.map _).sum_eq, map_sizeAt_range]
    rfl
  rw [hsum, paddedCells_eq]
  refine sum_size_le_cells (fun n hn => le_roundUpSeqLen hn) fun group _ i _ => ?_
  rw [EmbedModel.sizeAt, EmbedModel.cappedLens, List.getD_eq_getElem?_getD, List.getElem?_map]
  cases tokenIds[i]? with
  | none => exact Nat.zero_le _
  | some v => exact Nat.min_le_right _ _

/-- No plan has more cells than one pass over the whole request. -/
theorem paddedCells_le (hM : 1 ≤ M.maxLen) :
    M.paddedCells A tokenIds ≤ tokenIds.length * M.maxSeq tokenIds := by
  have hle : cells (M.sizeAt tokenIds) _ _ ≤ _ :=
    cells_le_of_perm (roundUpSeqLen_monotone hM) (groups_perm A M tokenIds)
  rwa [List.length_range, ← maxSeq_eq_widest] at hle

end Tensors

/-- **Splitting never costs padding.** The width grows with the length, is at least one and, for a
length that the model takes, no less than the length and no more than the model's maximum. For every
request and every ratio, the cells that the call counts are at least the tokens that it computes,
are the cells of the tensors that the passes build, and are no more than those of one pass over the
whole request. -/
theorem embed_tokens_padding (A : Arith F D) (M : EmbedModel F) (hM : 1 ≤ M.maxLen) :
    (∀ m n, m ≤ n → roundUpSeqLen m M.maxLen ≤ roundUpSeqLen n M.maxLen) ∧
      (∀ n, 1 ≤ roundUpSeqLen n M.maxLen) ∧
      (∀ n, 1 ≤ n → n ≤ M.maxLen →
        n ≤ roundUpSeqLen n M.maxLen ∧ roundUpSeqLen n M.maxLen ≤ M.maxLen) ∧
      ∀ tokenIds, M.realTokenCount tokenIds ≤ M.paddedCells A tokenIds ∧
        tensorCells M (M.passes A tokenIds) = .ok (M.paddedCells A tokenIds) ∧
        ∃ unsplit, tensorCells M [tokenIds] = .ok unsplit ∧
          M.paddedCells A tokenIds ≤ unsplit := by
  refine ⟨fun m n h => roundUpSeqLen_monotone hM h, one_le_roundUpSeqLen hM,
    fun n _ hn => ⟨le_roundUpSeqLen hn, roundUpSeqLen_le hM⟩, fun tokenIds => ?_⟩
  refine ⟨realTokenCount_le, tensorCells_passes A M tokenIds, _, tensorCells_eq M [tokenIds], ?_⟩
  rw [List.map_singleton, List.sum_singleton]
  exact paddedCells_le hM

/-- A model that takes four tokens, and a request with texts of one, four, no and six tokens. -/
theorem embed_tokens_padding_idModel :
    tensorCells idModel
        (idModel.passes exactArith [[5], [1, 2, 3, 4], [], [9, 9, 9, 9, 9, 9]]) =
      .ok (idModel.paddedCells exactArith [[5], [1, 2, 3, 4], [], [9, 9, 9, 9, 9, 9]]) :=
  ((embed_tokens_padding exactArith idModel (by decide)).2.2.2
    [[5], [1, 2, 3, 4], [], [9, 9, 9, 9, 9, 9]]).2.1

/-- The texts of four and of six tokens are one group, the others another one. -/
example : idModel.paddedCells exactArith [[5], [1, 2, 3, 4], [], [9, 9, 9, 9, 9, 9]] = 10 := by
  decide +kernel

end OxEmbed.Embed

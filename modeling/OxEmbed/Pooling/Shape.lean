import OxEmbed.Pooling.MeanPool

/-!
# The shape of a model's output

`mean_pool_normalize` compares the rank, the first axis and the last axis of the tensor with what
it expects, and reports another shape as an error. The number of the positions that it reads in a
row comes from the mask, and the width that the mask was built with is not compared with the second
axis. When the two differ, a row with more real positions than the tensor has is read out of
bounds, which is a panic, and if there is no such row the call returns vectors.

## Main definitions

* `PoolingTotal` : the call returns an error or a vector for each row, and reports a tensor of
  another width.

## Main results

* `meanPoolNormalize_of_not_shape` : what the check reports.
* `poolingTotal_iff`, `meanPoolNormalize_total_iff` : the call is total in this sense exactly when
  the tensor does not pass the check with another width.
-/

namespace OxEmbed.Pooling

variable {F D : Type} {A : Arith F D} {raw rowView : ArrayViewD F} {mask : Array2 F}
  {tokenIds : List (List UInt32)} {maskRow' : List F} {batch maxSeq extent dim i : ℕ}

/-- The text for a tensor of another shape. -/
def unexpectedShape (shape : List ℕ) (batch maxSeq dim : ℕ) : String :=
  s!"unexpected output shape: {shape}, expected [{batch}, {maxSeq}, {dim}]"

/-- The call returns an error, or a vector of the expected length for each row, and a tensor with
another number of positions is an unexpected shape. -/
def PoolingTotal (A : Arith F D) (raw : ArrayViewD F) (mask : Array2 F) (batch maxSeq dim : ℕ) :
    Prop :=
  ((∃ message, meanPoolNormalize A raw mask batch maxSeq dim = .error (.err message)) ∨
    ∃ vecs, meanPoolNormalize A raw mask batch maxSeq dim = .ok vecs ∧ vecs.length = batch ∧
      ∀ vec ∈ vecs, vec.length = dim) ∧
  ∀ extent, raw.shape[1]? = some extent → extent ≠ maxSeq →
    meanPoolNormalize A raw mask batch maxSeq dim =
      .error (.err (unexpectedShape raw.shape batch maxSeq dim))

/-! ### Lengths -/

/-- The position of the first zero is within the row. -/
theorem realTokens_le (h : maskRow'.length ≤ maxSeq) : realTokens A maskRow' maxSeq ≤ maxSeq := by
  rw [realTokens]
  cases hfind : maskRow'.findIdx? A.isZero with
  | none => exact le_rfl
  | some j =>
    have hj : j < maskRow'.length := (List.findIdx?_eq_some_iff_getElem.1 hfind).1
    rw [Option.getD_some]
    omega

theorem length_average (count : D) (acc : List F) : (average A count acc).length = acc.length := by
  rw [average]
  split
  · exact List.length_map _
  · rfl

theorem length_l2Normalize (acc : List F) : (l2Normalize A acc).length = acc.length := by
  simp only [l2Normalize]
  split
  · exact List.length_map _
  · rfl

theorem length_pooledRow (n : ℕ) : (pooledRow A raw dim i n).length = dim := by
  rw [pooledRow, length_l2Normalize, length_average, length_sumPrefix]

theorem length_row {a : Array2 F} (hi : i < a.rows) : (a.row i).length = a.cols := by
  have hend : (i + 1) * a.cols ≤ a.rows * a.cols := Nat.mul_le_mul_right _ hi
  rw [Array2.row, List.length_take, List.length_drop, a.length_data]
  rw [Nat.add_mul] at hend
  omega

/-! ### Totality -/

/-- What the check rejects. -/
theorem meanPoolNormalize_of_not_shape (h : ∀ extent, raw.shape ≠ [batch, extent, dim]) :
    meanPoolNormalize A raw mask batch maxSeq dim =
      .error (.err (unexpectedShape raw.shape batch maxSeq dim)) := by
  have hcheck : raw.shape.length ≠ 3 ∨ raw.shape[0]? ≠ some batch ∨ raw.shape[2]? ≠ some dim := by
    by_contra hpass
    push Not at hpass
    obtain ⟨hlen, hfirst, hlast⟩ := hpass
    obtain ⟨b, extent, d, heq⟩ := List.length_eq_three.1 hlen
    rw [heq] at hfirst hlast
    cases hfirst
    cases hlast
    exact h extent heq
  rw [meanPoolNormalize, if_pos hcheck]
  rfl

/-- **The call is total on a tensor exactly when the tensor does not pass the check with another
width than the mask.** -/
theorem poolingTotal_iff (hrows : mask.rows = batch) (hcols : mask.cols = maxSeq) :
    PoolingTotal A raw mask batch maxSeq dim ↔
      ∀ extent, raw.shape = [batch, extent, dim] → extent = maxSeq := by
  constructor
  · rintro ⟨-, hreport⟩ extent hshape
    by_contra hne
    have herr := hreport extent (by rw [hshape]; rfl) hne
    rw [meanPoolNormalize_of_shape hshape hrows] at herr
    split at herr <;> cases herr
  · intro hwidth
    by_cases hshape : ∃ extent, raw.shape = [batch, extent, dim]
    · obtain ⟨extent, hshape⟩ := hshape
      obtain rfl := hwidth extent hshape
      have hfits : ∀ row ∈ mask.axisIter, realTokens A row extent ≤ extent := by
        intro row hrow
        obtain ⟨i, hi, rfl⟩ := List.mem_map.1 hrow
        exact realTokens_le (by rw [length_row (List.mem_range.1 hi), hcols])
      refine ⟨.inr ⟨maskedRows A raw mask extent dim, ?_, ?_, ?_⟩, fun w hw hne => ?_⟩
      · rw [meanPoolNormalize_of_shape hshape hrows, if_pos hfits]
      · rw [maskedRows, List.length_mapIdx, Array2.axisIter, List.length_map, List.length_range,
          hrows]
      · intro vec hvec
        obtain ⟨i, hi, rfl⟩ := List.mem_mapIdx.1 hvec
        exact length_pooledRow _
      · rw [hshape] at hw
        exact absurd (Option.some.inj hw).symm hne
    · push Not at hshape
      have herr : meanPoolNormalize A raw mask batch maxSeq dim = _ :=
        meanPoolNormalize_of_not_shape hshape
      exact ⟨.inl ⟨_, herr⟩, fun _ _ _ => herr⟩

/-! ### The mask of a batch -/

theorem cols_of_buildMask {padId : UInt32} {withTti : Bool}
    (h : buildMask A tokenIds maxSeq padId withTti = .ok mask) : mask.cols = maxSeq := by
  rw [buildMask, Array2.fromShapeVec] at h
  split at h
  · cases h
    rfl
  · split at h <;> cases h

/-- **Pooling a batch**: the call returns an error or one vector for each sequence, and reports a
tensor of another width, exactly when the tensor does not have another width than the mask together
with the expected rank and the expected first and last axis. -/
theorem meanPoolNormalize_total_iff (A : Arith F D) (raw : ArrayViewD F)
    (tokenIds : List (List UInt32)) (maxSeq dim : ℕ) (padId : UInt32) (withTti : Bool) :
    ∃ mask, buildMask A tokenIds maxSeq padId withTti = .ok mask ∧
      (PoolingTotal A raw mask tokenIds.length maxSeq dim ↔
        ∀ extent, raw.shape = [tokenIds.length, extent, dim] → extent = maxSeq) := by
  obtain ⟨mask, hbuild, hrows, -⟩ := buildMask_eq A tokenIds maxSeq padId withTti
  exact ⟨mask, hbuild, poolingTotal_iff hrows (cols_of_buildMask hbuild)⟩

/-- A batch of two sequences of two tokens and of one: on a tensor with one position for each row
the call panics, and on a tensor with three positions it returns vectors. -/
theorem meanPoolNormalize_other_width :
    ∃ mask, buildMask exactArith [[7, 8], [9]] 2 0 false = .ok mask ∧
      meanPoolNormalize exactArith ⟨[(2, 1), (1, 1), (1, 1)], fun o => o⟩ mask 2 2 1 =
        .error .panic ∧
      (∃ vecs, meanPoolNormalize exactArith ⟨[(2, 3), (3, 1), (1, 1)], fun o => o⟩ mask 2 2 1 =
        .ok vecs) ∧
      ¬ PoolingTotal exactArith ⟨[(2, 1), (1, 1), (1, 1)], fun o => o⟩ mask 2 2 1 ∧
      ¬ PoolingTotal exactArith ⟨[(2, 3), (3, 1), (1, 1)], fun o => o⟩ mask 2 2 1 := by
  obtain ⟨mask, hbuild, hrows, hmask⟩ := buildMask_eq exactArith [[7, 8], [9]] 2 0 false
  have hcols := cols_of_buildMask hbuild
  have hcall {raw : ArrayViewD ℚ} {extent : ℕ} (hshape : raw.shape = [2, extent, 1]) :
      meanPoolNormalize exactArith raw mask 2 2 1 = _ :=
    meanPoolNormalize_of_width exactArith_lawful hshape hrows hmask
  refine ⟨mask, hbuild, ?_, ?_, ?_, ?_⟩
  · exact (hcall rfl).trans (if_neg (by decide))
  · exact ⟨_, (hcall rfl).trans (if_pos (by decide))⟩
  · exact fun h => absurd ((poolingTotal_iff hrows hcols).1 h 1 rfl) (by decide)
  · exact fun h => absurd ((poolingTotal_iff hrows hcols).1 h 3 rfl) (by decide)

end OxEmbed.Pooling

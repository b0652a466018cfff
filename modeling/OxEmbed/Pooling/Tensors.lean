import OxEmbed.Library.NdArray

/-!
# The input tensors of a forward pass

`build_tensors_from_ids` of `pool.rs`: the ids of a batch of token sequences, padded to one width,
and the attention mask over the real positions. Every model builds its tensors with it.

## Main definitions

* `buildTensorsFromIds` : the loops of the source over flat vectors.
* `idsRow`, `maskRow` : what a row of the tensors holds.
* `Failure`, `fromShapeVec` : a failed call, and the array of a tensor.
* `PrefixMask` : a mask that shows the first positions of a row.

## Main results

* `buildTensorsFromIds_eq` : the tensors are the rows of the sequences, one after another.
* `prefixMask_maskRow`, `take_idsRow` : a row shows the first ids of its sequence.
-/

namespace OxEmbed.Pooling

variable {tokenIds : List (List UInt32)} {seq : List UInt32} {maxSeq : ℕ} {padId : UInt32}

/-! ### The tensors -/

/-- The inner loop: the first `len` ids of `seq`, and as many ones, from `offset` on. -/
def fillSeq (seq : List UInt32) (len offset : ℕ) (t : List ℤ × List ℤ) : List ℤ × List ℤ :=
  (List.range len).foldl
    (fun t j => (t.1.set (offset + j) (seq.getD j 0).toNat, t.2.set (offset + j) 1)) t

/-- The padded ids, the attention mask and the token types. The callers pass the number of the
sequences as `batch`, so that every write is in bounds. -/
def buildTensorsFromIds (tokenIds : List (List UInt32)) (batch maxSeq : ℕ) (padId : UInt32)
    (withTti : Bool) : List ℤ × List ℤ × Option (List ℤ) :=
  let total := batch * maxSeq
  let ids := List.replicate total (padId.toNat : ℤ)
  let mask := List.replicate total (0 : ℤ)
  let tti := if withTti then some (List.replicate total (0 : ℤ)) else none
  let t := tokenIds.zipIdx.foldl
    (fun t p => fillSeq p.1 (min p.1.length maxSeq) (p.2 * maxSeq) t) (ids, mask)
  (t.1, t.2, tti)

/-- A row of the ids: the first ids of the sequence, then the pad id. -/
def idsRow (maxSeq : ℕ) (padId : UInt32) (seq : List UInt32) : List ℤ :=
  (seq.take maxSeq).map (fun t => (t.toNat : ℤ)) ++
    List.replicate (maxSeq - seq.length) (padId.toNat : ℤ)

/-- A row of the mask: ones over the real positions, then zeros. -/
def maskRow (maxSeq : ℕ) (seq : List UInt32) : List ℤ :=
  List.replicate (min seq.length maxSeq) 1 ++ List.replicate (maxSeq - seq.length) 0

@[simp]
theorem length_idsRow : (idsRow maxSeq padId seq).length = maxSeq := by
  simp only [idsRow, List.length_append, List.length_map, List.length_take, List.length_replicate]
  omega

@[simp]
theorem length_maskRow : (maskRow maxSeq seq).length = maxSeq := by
  simp only [maskRow, List.length_append, List.length_replicate]
  omega

/-- Writing the places of a part of a list, one after another, replaces the part. -/
theorem foldl_set_range {α : Type} (f : ℕ → α) (n : ℕ) (pre post : List α) (a : α) :
    (List.range n).foldl (fun t j => t.set (pre.length + j) (f j))
      (pre ++ List.replicate n a ++ post) = pre ++ (List.range n).map f ++ post := by
  induction n generalizing post with
  | zero => simp
  | succ n ih =>
    have hsplit : pre ++ List.replicate (n + 1) a ++ post =
        pre ++ List.replicate n a ++ (a :: post) := by
      rw [List.replicate_succ']
      simp
    rw [List.range_succ, List.foldl_append, hsplit, ih (a :: post), List.foldl_cons,
      List.foldl_nil, List.map_append, List.append_assoc, List.set_append_right _ _ (by omega),
      Nat.add_sub_cancel_left, List.set_append_right _ _ (by simp), List.length_map,
      List.length_range, Nat.sub_self, List.set_cons_zero]
    simp

/-- The two tensors are filled alike. -/
theorem fillSeq_eq (len offset : ℕ) (t : List ℤ × List ℤ) : fillSeq seq len offset t =
    ((List.range len).foldl (fun t j => t.set (offset + j) ((seq.getD j 0).toNat : ℤ)) t.1,
      (List.range len).foldl (fun t j => t.set (offset + j) 1) t.2) := by
  rw [fillSeq]
  induction List.range len generalizing t with
  | nil => rfl
  | cons j js ih => rw [List.foldl_cons, List.foldl_cons, List.foldl_cons, ih]

/-- The first ids of a sequence, one by one. -/
theorem map_getD_range (seq : List UInt32) (maxSeq : ℕ) :
    (List.range (min seq.length maxSeq)).map (fun j => ((seq.getD j 0).toNat : ℤ)) =
      (seq.take maxSeq).map (fun t => (t.toNat : ℤ)) := by
  refine List.ext_getElem (by simp [Nat.min_comm]) fun j hj _ => ?_
  have hj : j < seq.length := by
    rw [List.length_map, List.length_range] at hj
    omega
  simp [List.getD_eq_getElem?_getD, List.getElem?_eq_getElem hj]

/-- The inner loop turns a padded row into the row of the sequence. -/
theorem fillSeq_row (pre pre' post post' : List ℤ) (hpre : pre'.length = pre.length) :
    fillSeq seq (min seq.length maxSeq) pre.length
      (pre ++ List.replicate maxSeq (padId.toNat : ℤ) ++ post,
        pre' ++ List.replicate maxSeq 0 ++ post') =
      (pre ++ idsRow maxSeq padId seq ++ post, pre' ++ maskRow maxSeq seq ++ post') := by
  have hsplit (a : ℤ) (l r : List ℤ) : l ++ List.replicate maxSeq a ++ r =
      l ++ List.replicate (min seq.length maxSeq) a ++
        (List.replicate (maxSeq - seq.length) a ++ r) := by
    rw [List.append_assoc l, List.append_assoc l, ← List.append_assoc (List.replicate _ a),
      List.replicate_append_replicate]
    congr 3
    omega
  rw [fillSeq_eq, hsplit, hsplit, foldl_set_range, ← hpre, foldl_set_range, map_getD_range,
    idsRow, maskRow]
  simp [List.map_const']

variable (tokenIds maxSeq padId) in
/-- The outer loop, from the rows that are already filled on. -/
theorem foldl_fillSeq (done : ℕ) (pre pre' : List ℤ) (hpre : pre.length = done * maxSeq)
    (hpre' : pre'.length = done * maxSeq) :
    (tokenIds.zipIdx done).foldl
      (fun t p => fillSeq p.1 (min p.1.length maxSeq) (p.2 * maxSeq) t)
      (pre ++ List.replicate (tokenIds.length * maxSeq) (padId.toNat : ℤ),
        pre' ++ List.replicate (tokenIds.length * maxSeq) 0) =
      (pre ++ tokenIds.flatMap (idsRow maxSeq padId),
        pre' ++ tokenIds.flatMap (maskRow maxSeq)) := by
  induction tokenIds generalizing done pre pre' with
  | nil => simp
  | cons seq tokenIds ih =>
    have hsplit (a : ℤ) (l : List ℤ) :
        l ++ List.replicate ((seq :: tokenIds).length * maxSeq) a =
          l ++ List.replicate maxSeq a ++ List.replicate (tokenIds.length * maxSeq) a := by
      rw [List.append_assoc, List.replicate_append_replicate, List.length_cons, Nat.add_mul,
        Nat.one_mul, Nat.add_comm]
    rw [List.zipIdx_cons, List.foldl_cons, hsplit, hsplit, ← hpre,
      fillSeq_row _ _ _ _ (hpre'.trans hpre.symm)]
    rw [ih (done + 1) _ _ (by simp [hpre, Nat.add_mul]) (by simp [hpre', Nat.add_mul])]
    simp

/-- **The tensors are the rows of the sequences, one after another.** -/
theorem buildTensorsFromIds_eq (tokenIds : List (List UInt32)) (maxSeq : ℕ) (padId : UInt32)
    (withTti : Bool) : buildTensorsFromIds tokenIds tokenIds.length maxSeq padId withTti =
      (tokenIds.flatMap (idsRow maxSeq padId), tokenIds.flatMap (maskRow maxSeq),
        if withTti then some (List.replicate (tokenIds.length * maxSeq) 0) else none) := by
  have h := foldl_fillSeq tokenIds maxSeq padId 0 [] [] (by simp) (by simp)
  rw [buildTensorsFromIds]
  simp only [List.nil_append] at h
  simp only [h]

/-! ### Arrays from the tensors -/

/-- How a call ends without a result: the `Err` it returns, or a panic. -/
inductive Failure
  | err (message : String)
  | panic
  deriving DecidableEq

/-- `Array2::from_shape_vec` with the name of the array in the error. -/
def fromShapeVec {α : Type} (what : String) (rows cols : ℕ) (data : List α) :
    Except Failure (Array2 α) :=
  match Array2.fromShapeVec rows cols data with
  | .ok a => .ok a
  | .error e => .error (.err s!"{what} shape: {e}")

theorem fromShapeVec_of_eq {α : Type} {what : String} {rows cols : ℕ} {data : List α}
    (h : data.length = rows * cols) :
    fromShapeVec what rows cols data = .ok ⟨rows, cols, data, h⟩ := by
  rw [fromShapeVec, Array2.fromShapeVec_of_eq h]

/-- The array of the ids has a row for each sequence. -/
theorem exists_idsArr (what : String) (tokenIds : List (List UInt32)) (maxSeq : ℕ)
    (padId : UInt32) (withTti : Bool) :
    ∃ a : Array2 ℤ, fromShapeVec what tokenIds.length maxSeq
        (buildTensorsFromIds tokenIds tokenIds.length maxSeq padId withTti).1 = .ok a ∧
      a.rows = tokenIds.length ∧ a.cols = maxSeq ∧
      a.axisIter = tokenIds.map (idsRow maxSeq padId) := by
  have hlen : (tokenIds.flatMap (idsRow maxSeq padId)).length = tokenIds.length * maxSeq := by
    simp [List.length_flatMap]
  rw [buildTensorsFromIds_eq]
  exact ⟨_, fromShapeVec_of_eq hlen, rfl, rfl,
    Array2.axisIter_of_flatten List.flatMap_def (by simp) (by simp)⟩

/-- The array of the mask has a row for each sequence. -/
theorem exists_maskArr (what : String) (tokenIds : List (List UInt32)) (maxSeq : ℕ)
    (padId : UInt32) (withTti : Bool) :
    ∃ a : Array2 ℤ, fromShapeVec what tokenIds.length maxSeq
        (buildTensorsFromIds tokenIds tokenIds.length maxSeq padId withTti).2.1 = .ok a ∧
      a.rows = tokenIds.length ∧ a.axisIter = tokenIds.map (maskRow maxSeq) := by
  have hlen : (tokenIds.flatMap (maskRow maxSeq)).length = tokenIds.length * maxSeq := by
    simp [List.length_flatMap]
  rw [buildTensorsFromIds_eq]
  exact ⟨_, fromShapeVec_of_eq hlen, rfl,
    Array2.axisIter_of_flatten List.flatMap_def (by simp) (by simp)⟩

/-- The row of a sequence in such an array. -/
theorem row_eq_of_axisIter {a : Array2 ℤ} {g : List UInt32 → List ℤ} {i : ℕ}
    (hrows : a.rows = tokenIds.length) (hiter : a.axisIter = tokenIds.map g)
    (hseq : tokenIds[i]? = some seq) : a.row i = g seq := by
  obtain ⟨hi, -⟩ := List.getElem?_eq_some_iff.1 hseq
  have hrow := congrArg (·[i]?) hiter
  simp only [Array2.axisIter, List.getElem?_map, List.getElem?_range (hrows.symm ▸ hi), hseq,
    Option.map_some, Option.some.injEq] at hrow
  exact hrow

/-- A loop whose steps all give a result gives the list of the results. -/
theorem mapM_eq_pure {m : Type → Type} [Monad m] [LawfulMonad m] {α β : Type} {f : α → m β}
    {l : List α} {out : List β} (hlen : l.length = out.length)
    (h : ∀ (i : ℕ) (a : α) (b : β), l[i]? = some a → out[i]? = some b → f a = pure b) :
    l.mapM f = pure out := by
  induction l generalizing out with
  | nil =>
    match out, hlen with
    | [], _ => rfl
  | cons a l ih =>
    match out, hlen with
    | b :: out, hlen =>
      rw [List.mapM_cons, h 0 a b rfl rfl, ih (Nat.succ.inj hlen) fun i => h (i + 1)]
      simp

/-! ### The ids that a row shows -/

/-- No sequence of a batch is longer than the longest. -/
theorem le_foldl_max {l : List ℕ} {x init : ℕ} (h : x ∈ l ∨ x ≤ init) : x ≤ l.foldl max init := by
  induction l generalizing init with
  | nil => exact h.resolve_left List.not_mem_nil
  | cons a l ih =>
    rw [List.foldl_cons]
    refine ih ?_
    rcases h with hmem | hle
    · rcases List.mem_cons.1 hmem with rfl | hmem
      · exact .inr (Nat.le_max_right _ _)
      · exact .inl hmem
    · exact .inr (hle.trans (Nat.le_max_left _ _))

/-- The mask shows the first `n` positions of a row and no others. -/
def PrefixMask (mask : List ℤ) (n : ℕ) : Prop :=
  n ≤ mask.length ∧ mask = List.replicate n 1 ++ List.replicate (mask.length - n) 0

/-- The mask of a sequence shows its real positions. -/
theorem prefixMask_maskRow (maxSeq : ℕ) (seq : List UInt32) :
    PrefixMask (maskRow maxSeq seq) (min seq.length maxSeq) := by
  refine ⟨by rw [length_maskRow]; exact Nat.min_le_right _ _, ?_⟩
  have hzeros : maxSeq - min seq.length maxSeq = maxSeq - seq.length := by omega
  rw [length_maskRow, hzeros, maskRow]

/-- The ids at the real positions are the first ids of the sequence, whatever the row is padded
with. -/
theorem take_idsRow (maxSeq : ℕ) (padId : UInt32) (seq : List UInt32) :
    (idsRow maxSeq padId seq).take (min seq.length maxSeq) =
      (seq.take maxSeq).map (fun t => (t.toNat : ℤ)) := by
  rw [idsRow, List.take_append_of_le_length (by simp [Nat.min_comm]), List.take_of_length_le]
  simp [Nat.min_comm]

end OxEmbed.Pooling

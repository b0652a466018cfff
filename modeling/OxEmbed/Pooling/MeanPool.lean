import OxEmbed.Pooling.Tensors
import Mathlib.Data.Rat.Cast.Defs
import Mathlib.Algebra.Order.Ring.Rat

/-!
# Mean pooling

`mean_pool_normalize` of `pool.rs`: the mean of the hidden states over the real positions of each
row, scaled to length one. It finds the real positions as those before the first zero of the mask,
and adds the rows as slices where they are contiguous. The plain loop that it replaces is
`referenceMeanPoolNormalize`, which tests the mask at each position.

The types `F` and `D` stand for `f32` and `f64`, with their operations as parameters, so that
the results hold for any rounding and any order-dependence of the additions.

## Main definitions

* `Arith`, `Arith.Lawful`, `Arith.CountsTo` : the operations, and what the code relies on.
* `meanPoolNormalize`, `referenceMeanPoolNormalize` : the function and the plain loop.
* `pooledRow` : the vector of a row, from the hidden states at its real positions.

## Main results

* `meanPoolNormalize_of_shape` : what the call does with a tensor that passes the check.
* `meanPoolNormalize_of_width`, `meanPoolNormalize_eq` : the vectors under the mask of `build_tensors_from_ids`.
* `mean_pool_eq_reference` : the function agrees with the plain loop and does not see padding.
-/

namespace OxEmbed.Pooling

variable {F D : Type}

/-! ### Arithmetic -/

/-- The operations of `f32` (`F`) and `f64` (`D`) that the code uses. -/
structure Arith (F D : Type) where
  zero : F
  one : F
  add : F → F → F
  mul : F → F → F
  div : F → F → F
  /-- `x == 0.0` -/
  isZero : F → Bool
  /-- `x > 0.0` -/
  isPos : F → Bool
  isNan : F → Bool
  /-- `x <= y` -/
  le : F → F → Bool
  /-- `i64 as f32` -/
  ofInt : ℤ → F
  /-- `usize as f32` -/
  ofNat : ℕ → F
  /-- `f32 as f64` -/
  widen : F → D
  /-- `f64 as f32` -/
  narrow : D → F
  zero64 : D
  one64 : D
  /-- The value that `Iterator::sum` starts from. -/
  sumStart : D
  add64 : D → D → D
  mul64 : D → D → D
  div64 : D → D → D
  sqrt64 : D → D
  /-- `x > 0.0` -/
  isPos64 : D → Bool
  /-- `usize as f64` -/
  ofNat64 : ℕ → D

/-- What the code relies on: the tests of a mask that holds zeros and ones. -/
structure Arith.Lawful (A : Arith F D) : Prop where
  isZero_ofInt_zero : A.isZero (A.ofInt 0) = true
  isZero_ofInt_one : A.isZero (A.ofInt 1) = false
  isPos_ofInt_zero : A.isPos (A.ofInt 0) = false
  isPos_ofInt_one : A.isPos (A.ofInt 1) = true

/-- Adding one again and again counts exactly up to `n`, as `f64` does up to `2 ^ 53`. -/
structure Arith.CountsTo (A : Arith F D) (n : ℕ) : Prop where
  zero : A.ofNat64 0 = A.zero64
  succ : ∀ m < n, A.ofNat64 (m + 1) = A.add64 (A.ofNat64 m) A.one64

variable (A : Arith F D)

/-! ### The function -/

/-- `mask_i64_to_f32`. -/
def maskI64ToF32 (mask : List ℤ) : List F := mask.map A.ofInt

/-- `for (a, &b) in acc.iter_mut().zip(row) { *a += b }`. -/
def addAssign : List F → List F → List F
  | a :: acc, b :: row => A.add a b :: addAssign acc row
  | acc, _ => acc

/-- Add the hidden state at position `j` of a row: as a slice, or else element by element. -/
def addToken (rowView : ArrayViewD F) (acc : List F) (j : ℕ) : Except Failure (List F) :=
  match rowView.axis0 j with
  | none => .error .panic
  | some tokenVec =>
    match tokenVec.toSlice with
    | some slc => .ok (addAssign A acc slc)
    | none => .ok (addAssign A acc tokenVec.iter)

/-- Average over the real positions. -/
def average (count : D) (acc : List F) : List F :=
  if A.isPos64 count then
    let inv := A.narrow (A.div64 A.one64 count)
    acc.map (A.mul · inv)
  else acc

/-- Scale to length one. -/
def l2Normalize (acc : List F) : List F :=
  let sumSq := (acc.map fun x => A.mul64 (A.widen x) (A.widen x)).foldl A.add64 A.sumStart
  let norm := A.sqrt64 sumSq
  if A.isPos64 norm then
    let inv := A.narrow (A.div64 A.one64 norm)
    acc.map (A.mul · inv)
  else acc

/-- The number of positions before the first zero of the mask. -/
def realTokens (maskRow : List F) (maxSeq : ℕ) : ℕ := (maskRow.findIdx? A.isZero).getD maxSeq

/-- The body of the loop over the rows. -/
def poolRow (maxSeq dim : ℕ) (rowView : ArrayViewD F) (maskRow : List F) :
    Except Failure (List F) := do
  let realTokens := realTokens A maskRow maxSeq
  let acc ← (List.range realTokens).foldlM (addToken A rowView) (List.replicate dim A.zero)
  return l2Normalize A (average A (A.ofNat64 realTokens) acc)

/-- `mean_pool_normalize`. -/
def meanPoolNormalize (raw : ArrayViewD F) (mask : Array2 F) (batch maxSeq dim : ℕ) :
    Except Failure (List (List F)) :=
  let shape := raw.shape
  if shape.length ≠ 3 ∨ shape[0]? ≠ some batch ∨ shape[2]? ≠ some dim then
    .error (.err s!"unexpected output shape: {shape}, expected [{batch}, {maxSeq}, {dim}]")
  else (raw.axisIter.zip mask.axisIter).mapM fun p => poolRow A maxSeq dim p.1 p.2

/-! ### The plain loop -/

/-- `vec[k] += row[k]`; `none` stands for an index out of bounds. -/
def addAt (row : ℕ → Option F) (vec : List F) (k : ℕ) : Option (List F) := do
  let v ← vec[k]?
  let x ← row k
  return vec.set k (A.add v x)

/-- The inner loop of the reference: `vec[k] += raw[[i, j, k]]` for each `k`. -/
def referenceAdd (raw : ArrayViewD F) (dim i j : ℕ) (vec : List F) : Option (List F) :=
  (List.range dim).foldlM (addAt A fun k => raw.get? [i, j, k]) vec

/-- A row of the reference. -/
def referenceRow (raw : ArrayViewD F) (mask : Array2 F) (maxSeq dim i : ℕ) : Option (List F) := do
  let (vec, count) ← (List.range maxSeq).foldlM (fun (vec, count) j => do
    let m ← mask.get? i j
    if A.isPos m then
      let count := A.add64 count A.one64
      let vec ← referenceAdd A raw dim i j vec
      return (vec, count)
    else return (vec, count)) (List.replicate dim A.zero, A.zero64)
  return l2Normalize A (average A count vec)

/-- `reference_mean_pool_normalize`. -/
def referenceMeanPoolNormalize (raw : ArrayViewD F) (mask : Array2 F) (batch maxSeq dim : ℕ) :
    Option (List (List F)) :=
  (List.range batch).mapM (referenceRow A raw mask maxSeq dim)

/-! ### The vector of a row -/

/-- The hidden state at position `j` of row `i`. -/
def hiddenState (raw : ArrayViewD F) (i j : ℕ) : List F :=
  (((raw.axis0 i).bind (·.axis0 j)).map ArrayViewD.iter).getD []

/-- The sum of the hidden states at the first positions of row `i`. -/
def sumPrefix (raw : ArrayViewD F) (dim i n : ℕ) : List F :=
  ((List.range n).map (hiddenState raw i)).foldl (addAssign A) (List.replicate dim A.zero)

/-- The vector of row `i`, from its first `n` positions. -/
def pooledRow (raw : ArrayViewD F) (dim i n : ℕ) : List F :=
  l2Normalize A (average A (A.ofNat64 n) (sumPrefix A raw dim i n))

/-- The vector of a row depends on nothing but the hidden states at its real positions. -/
theorem pooledRow_congr {raw raw' : ArrayViewD F} {dim i i' n : ℕ}
    (h : ∀ j < n, hiddenState raw i j = hiddenState raw' i' j) :
    pooledRow A raw dim i n = pooledRow A raw' dim i' n := by
  have hmap : (List.range n).map (hiddenState raw i) = (List.range n).map (hiddenState raw' i') :=
    List.map_congr_left fun j hj => h j (List.mem_range.1 hj)
  rw [pooledRow, pooledRow, sumPrefix, sumPrefix, hmap]

theorem sumPrefix_succ (raw : ArrayViewD F) (dim i n : ℕ) : sumPrefix A raw dim i (n + 1) =
    addAssign A (sumPrefix A raw dim i n) (hiddenState raw i n) := by
  rw [sumPrefix, List.range_succ, List.map_append, List.foldl_append]
  rfl

/-! ### Rows of a view with three axes -/

section

variable {A} {raw rowView : ArrayViewD F} {batch maxSeq dim i j n : ℕ}

theorem exists_rowView (hshape : raw.shape = [batch, maxSeq, dim]) (hi : i < batch) :
    ∃ rowView, raw.axis0 i = some rowView ∧ rowView.shape = [maxSeq, dim] := by
  obtain ⟨rowView, hrow⟩ := Option.isSome_iff_exists.1 ((ArrayViewD.axis0_isSome hshape).2 hi)
  exact ⟨rowView, hrow, by rw [ArrayViewD.shape_of_axis0 hrow, hshape, List.tail_cons]⟩

theorem exists_tokenVec (hshape : rowView.shape = [maxSeq, dim]) (hj : j < maxSeq) :
    ∃ tokenVec, rowView.axis0 j = some tokenVec ∧ tokenVec.shape = [dim] := by
  obtain ⟨tokenVec, htoken⟩ :=
    Option.isSome_iff_exists.1 ((ArrayViewD.axis0_isSome hshape).2 hj)
  exact ⟨tokenVec, htoken, by rw [ArrayViewD.shape_of_axis0 htoken, hshape, List.tail_cons]⟩

/-- A hidden state has one element for each dimension, and they are those of the tensor. -/
theorem hiddenState_spec (hshape : raw.shape = [batch, maxSeq, dim]) (hi : i < batch)
    (hj : j < maxSeq) : (hiddenState raw i j).length = dim ∧
      ∀ k, (hiddenState raw i j)[k]? = raw.get? [i, j, k] := by
  obtain ⟨rowView, hrow, hrowShape⟩ := exists_rowView hshape hi
  obtain ⟨tokenVec, htoken, htokenShape⟩ := exists_tokenVec hrowShape hj
  have hstate : hiddenState raw i j = tokenVec.iter := by
    rw [hiddenState, hrow, Option.bind_some, htoken, Option.map_some, Option.getD_some]
  refine ⟨by rw [hstate, ArrayViewD.length_iter htokenShape], fun k => ?_⟩
  rw [hstate, ArrayViewD.getElem?_iter htokenShape]
  simp only [ArrayViewD.get?, hrow, htoken, Option.bind_some]

/-- Both branches add the hidden state at the position. -/
theorem addToken_eq (hrow : raw.axis0 i = some rowView) (hshape : rowView.shape = [maxSeq, dim])
    (hj : j < maxSeq) (acc : List F) :
    addToken A rowView acc j = .ok (addAssign A acc (hiddenState raw i j)) := by
  obtain ⟨tokenVec, htoken, -⟩ := exists_tokenVec hshape hj
  have hstate : hiddenState raw i j = tokenVec.iter := by
    rw [hiddenState, hrow, Option.bind_some, htoken, Option.map_some, Option.getD_some]
  rw [addToken, htoken, hstate]
  dsimp only
  cases hslice : tokenVec.toSlice with
  | some slc => rw [ArrayViewD.toSlice_eq_some hslice]
  | none => rfl

/-- The loop over the real positions sums their hidden states. -/
theorem foldlM_addToken (hrow : raw.axis0 i = some rowView)
    (hshape : rowView.shape = [maxSeq, dim]) (hn : n ≤ maxSeq) :
    (List.range n).foldlM (addToken A rowView) (List.replicate dim A.zero) =
      .ok (sumPrefix A raw dim i n) := by
  induction n with
  | zero => rfl
  | succ n ih =>
    rw [List.range_succ, List.foldlM_append, ih (by omega), sumPrefix_succ,
      ← addToken_eq hrow hshape (by omega)]
    show (addToken A rowView (sumPrefix A raw dim i n) n >>= pure) = _
    exact bind_pure _

theorem length_addAssign (acc row : List F) : (addAssign A acc row).length = acc.length := by
  induction acc generalizing row with
  | nil => rfl
  | cons a acc ih =>
    match row with
    | [] => rfl
    | b :: row => rw [addAssign, List.length_cons, ih, List.length_cons]

theorem length_sumPrefix (raw : ArrayViewD F) (dim i n : ℕ) :
    (sumPrefix A raw dim i n).length = dim := by
  induction n with
  | zero => exact List.length_replicate
  | succ n ih => rw [sumPrefix_succ, length_addAssign, ih]

/-! ### The inner loop of the reference -/

/-- Adding the elements of a row one index at a time, from the ones that are already added on. -/
theorem foldlM_addAt {f : ℕ → Option F} (pre acc row : List F)
    (hlen : acc.length = row.length) (hf : ∀ k < row.length, f (pre.length + k) = row[k]?) :
    (List.range' pre.length acc.length).foldlM (addAt A f) (pre ++ acc) =
      some (pre ++ addAssign A acc row) := by
  induction acc generalizing pre row with
  | nil =>
    match row, hlen with
    | [], _ => rfl
  | cons a acc ih =>
    match row, hlen with
    | b :: row, hlen =>
      have hb : f pre.length = some b := hf 0 (Nat.succ_pos _)
      have hadd : addAt A f (pre ++ a :: acc) pre.length =
          some (pre ++ [A.add a b] ++ acc) := by
        simp [addAt, hb]
      have hrest := ih (pre ++ [A.add a b]) row (by simpa using hlen) fun k hk => by
        rw [List.length_append, List.length_singleton, Nat.add_assoc, Nat.add_comm 1 k,
          hf (k + 1) (by simpa using hk), List.getElem?_cons_succ]
      rw [List.length_append, List.length_singleton] at hrest
      rw [List.length_cons, List.range'_succ, List.foldlM_cons, hadd]
      show (List.range' (pre.length + 1) acc.length).foldlM (addAt A f) _ = _
      rw [hrest, addAssign, List.append_assoc]
      rfl

/-- The inner loop of the reference adds the hidden state at the position. -/
theorem referenceAdd_eq (hshape : raw.shape = [batch, maxSeq, dim]) (hi : i < batch)
    (hj : j < maxSeq) {vec : List F} (hvec : vec.length = dim) :
    referenceAdd A raw dim i j vec = some (addAssign A vec (hiddenState raw i j)) := by
  obtain ⟨hlen, hget⟩ := hiddenState_spec hshape hi hj
  have h := foldlM_addAt (A := A) (f := fun k => raw.get? [i, j, k]) [] vec
    (hiddenState raw i j) (hvec.trans hlen.symm) fun k _ => by
      rw [List.length_nil, Nat.zero_add, hget]
  rw [List.length_nil, hvec, ← List.range_eq_range', List.nil_append, List.nil_append] at h
  exact h

/-! ### The mask -/

/-- The mask that is built for a batch of token sequences, as a matrix. -/
def buildMask (A : Arith F D) (tokenIds : List (List UInt32)) (maxSeq : ℕ) (padId : UInt32)
    (withTti : Bool) : Except String (Array2 F) :=
  Array2.fromShapeVec tokenIds.length maxSeq (maskI64ToF32 A
    (buildTensorsFromIds tokenIds tokenIds.length maxSeq padId withTti).2.1)

/-- The rows of the mask are the masks of the sequences. -/
theorem buildMask_eq (A : Arith F D) (tokenIds : List (List UInt32)) (maxSeq : ℕ)
    (padId : UInt32) (withTti : Bool) : ∃ mask,
      buildMask A tokenIds maxSeq padId withTti = .ok mask ∧ mask.rows = tokenIds.length ∧
      mask.axisIter = tokenIds.map fun seq => (maskRow maxSeq seq).map A.ofInt := by
  have hdata : maskI64ToF32 A
      (buildTensorsFromIds tokenIds tokenIds.length maxSeq padId withTti).2.1 =
      (tokenIds.map fun seq => (maskRow maxSeq seq).map A.ofInt).flatten := by
    rw [buildTensorsFromIds_eq, maskI64ToF32, List.map_flatMap, List.flatMap_def]
  have hlen : (maskI64ToF32 A
      (buildTensorsFromIds tokenIds tokenIds.length maxSeq padId withTti).2.1).length =
      tokenIds.length * maxSeq := by
    rw [buildTensorsFromIds_eq, maskI64ToF32, List.length_map, List.length_flatMap]
    simp
  refine ⟨_, Array2.fromShapeVec_of_eq hlen, rfl, ?_⟩
  refine Array2.axisIter_of_flatten hdata (by simp) fun l hl => ?_
  obtain ⟨seq, -, rfl⟩ := List.mem_map.1 hl
  rw [List.length_map, length_maskRow]

/-- Under this mask the first zero stands right after the real positions. -/
theorem realTokens_maskRow (hA : A.Lawful) (maxSeq : ℕ) (seq : List UInt32) :
    realTokens A ((maskRow maxSeq seq).map A.ofInt) maxSeq = min seq.length maxSeq := by
  have hones : ∀ n, ((List.replicate n (1 : ℤ)).map A.ofInt).findIdx? A.isZero = none := by
    intro n
    rw [List.findIdx?_eq_none_iff]
    intro x hx
    obtain ⟨one, hone, rfl⟩ := List.mem_map.1 hx
    rw [List.eq_of_mem_replicate hone, hA.isZero_ofInt_one]
  rw [realTokens, maskRow, List.map_append, List.findIdx?_append, hones, List.length_map,
    List.length_replicate]
  rcases Nat.lt_or_ge seq.length maxSeq with hlt | hge
  · obtain ⟨m, hm⟩ : ∃ m, maxSeq - seq.length = m + 1 := ⟨maxSeq - seq.length - 1, by omega⟩
    rw [hm, List.replicate_succ, List.map_cons, List.findIdx?_cons, hA.isZero_ofInt_zero]
    simp
  · rw [Nat.sub_eq_zero_of_le hge, List.replicate_zero, List.map_nil, List.findIdx?_nil]
    simp only [Option.map_none, Option.or_none, Option.getD_none]
    omega

/-- An element of this mask is a one or a zero. -/
theorem getElem?_maskRow (A : Arith F D) (maxSeq j : ℕ) (seq : List UInt32) (hj : j < maxSeq) :
    ((maskRow maxSeq seq).map A.ofInt)[j]? =
      some (A.ofInt (if j < min seq.length maxSeq then 1 else 0)) := by
  rw [List.getElem?_map, maskRow, List.getElem?_append, List.length_replicate]
  split
  · rw [List.getElem?_replicate_of_lt ‹_›]
    rfl
  · rw [List.getElem?_replicate_of_lt (by omega)]
    rfl

/-! ### The rows of the function -/

variable {tokenIds : List (List UInt32)} {mask : Array2 F}
  {maskRow' : List F} {extent : ℕ}

/-- A loop over more positions than the row has reads out of bounds. -/
theorem foldlM_addToken_panic (hrow : raw.axis0 i = some rowView)
    (hshape : rowView.shape = [extent, dim]) {n : ℕ} (hn : extent < n) :
    (List.range n).foldlM (addToken A rowView) (List.replicate dim A.zero) = .error .panic := by
  obtain ⟨m, rfl⟩ : ∃ m, n = extent + (m + 1) := ⟨n - extent - 1, by omega⟩
  have hnone : rowView.axis0 extent = none := by
    rw [← Option.not_isSome_iff_eq_none, ArrayViewD.axis0_isSome hshape]
    exact lt_irrefl extent
  rw [List.range_add, List.foldlM_append, foldlM_addToken hrow hshape le_rfl,
    List.range_succ_eq_map, List.map_cons]
  -- the first position behind the end
  simp only [List.foldlM_cons, Nat.add_zero, addToken, hnone]
  rfl

/-- **A row is pooled when its real positions are in the tensor, and otherwise the call panics.** -/
theorem poolRow_of_shape (hrow : raw.axis0 i = some rowView)
    (hshape : rowView.shape = [extent, dim]) :
    poolRow A maxSeq dim rowView maskRow' =
      if realTokens A maskRow' maxSeq ≤ extent then
        .ok (pooledRow A raw dim i (realTokens A maskRow' maxSeq))
      else .error .panic := by
  rw [poolRow]
  split
  next hfits =>
    rw [foldlM_addToken hrow hshape hfits]
    rfl
  next hover =>
    rw [foldlM_addToken_panic hrow hshape (not_le.1 hover)]
    rfl

/-- A loop that can only panic, and that panics at some element. -/
theorem mapM_eq_panic {α β : Type} {f : α → Except Failure β} {l : List α}
    (hall : ∀ a ∈ l, f a = .error .panic ∨ ∃ b, f a = .ok b)
    (hsome : ∃ a ∈ l, f a = .error .panic) : l.mapM f = .error .panic := by
  induction l with
  | nil =>
    obtain ⟨a, ha, -⟩ := hsome
    exact absurd ha List.not_mem_nil
  | cons a l ih =>
    rw [List.mapM_cons]
    rcases hall a List.mem_cons_self with hpanic | ⟨b, hb⟩
    · rw [hpanic]
      rfl
    · obtain ⟨c, hc, hpanic⟩ := hsome
      have hl : ∃ c ∈ l, f c = .error .panic := by
        rcases List.mem_cons.1 hc with rfl | hc
        · rw [hb] at hpanic
          cases hpanic
        · exact ⟨c, hc, hpanic⟩
      rw [hb, ih (fun a ha => hall a (List.mem_cons_of_mem _ ha)) hl]
      rfl

/-- The vectors of the rows under any mask. -/
def maskedRows (A : Arith F D) (raw : ArrayViewD F) (mask : Array2 F) (maxSeq dim : ℕ) :
    List (List F) :=
  mask.axisIter.mapIdx fun i row => pooledRow A raw dim i (realTokens A row maxSeq)

/-- **A tensor that passes the check.** The call returns the vectors of the rows if the real
positions of every row are in the tensor, and panics if not. -/
theorem meanPoolNormalize_of_shape (hshape : raw.shape = [batch, extent, dim])
    (hrows : mask.rows = batch) :
    meanPoolNormalize A raw mask batch maxSeq dim =
      if ∀ row ∈ mask.axisIter, realTokens A row maxSeq ≤ extent then
        .ok (maskedRows A raw mask maxSeq dim)
      else .error .panic := by
  have hview (i : ℕ) : raw.axisIter[i]? = raw.axis0 i := ArrayViewD.getElem?_axisIter hshape i
  have hlen : raw.axisIter.length = mask.axisIter.length := by
    rw [ArrayViewD.length_axisIter hshape, Array2.axisIter, List.length_map, List.length_range,
      hrows]
  -- a row of the tensor with its row of the mask
  have hpair {i : ℕ} {p : ArrayViewD F × List F}
      (hp : (raw.axisIter.zip mask.axisIter)[i]? = some p) :
      mask.axisIter[i]? = some p.2 ∧ poolRow A maxSeq dim p.1 p.2 =
        if realTokens A p.2 maxSeq ≤ extent then
          .ok (pooledRow A raw dim i (realTokens A p.2 maxSeq))
        else .error .panic := by
    rw [List.getElem?_zip_eq_some, hview] at hp
    refine ⟨hp.2, poolRow_of_shape hp.1 ?_⟩
    rw [ArrayViewD.shape_of_axis0 hp.1, hshape, List.tail_cons]
  rw [meanPoolNormalize, hshape, if_neg (by simp)]
  split
  next hfits =>
    refine mapM_eq_pure (by simp [maskedRows, hlen]) fun i p vec hp hvec => ?_
    obtain ⟨hrow, hpool⟩ := hpair hp
    rw [maskedRows, List.getElem?_mapIdx, hrow, Option.map_some] at hvec
    rw [hpool, if_pos (hfits _ (List.mem_of_getElem? hrow)), Option.some.inj hvec]
    rfl
  next hover =>
    refine mapM_eq_panic (fun p hp => ?_) ?_
    · obtain ⟨i, hi⟩ := List.mem_iff_getElem?.1 hp
      rw [(hpair hi).2]
      split
      · exact .inr ⟨_, rfl⟩
      · exact .inl rfl
    · push Not at hover
      obtain ⟨row, hmem, hlt⟩ := hover
      obtain ⟨i, hi⟩ := List.mem_iff_getElem?.1 hmem
      have hbound : i < raw.axisIter.length := hlen ▸ (List.getElem?_eq_some_iff.1 hi).1
      have hp : (raw.axisIter.zip mask.axisIter)[i]? = some (raw.axisIter[i], row) :=
        List.getElem?_zip_eq_some.2 ⟨List.getElem?_eq_getElem hbound, hi⟩
      refine ⟨_, List.mem_of_getElem? hp, ?_⟩
      rw [(hpair hp).2, if_neg (not_le.2 hlt)]

/-! ### The vectors of a batch -/

/-- The vectors of a batch of token sequences. -/
def pooledRows (A : Arith F D) (raw : ArrayViewD F) (dim maxSeq : ℕ)
    (tokenIds : List (List UInt32)) : List (List F) :=
  tokenIds.mapIdx fun i seq => pooledRow A raw dim i (min seq.length maxSeq)

/-- **The tensor of a batch.** Its width is not compared with that of the mask: a row of more real
positions than the tensor has is a panic, and without such a row the vectors are returned. -/
theorem meanPoolNormalize_of_width (hA : A.Lawful)
    (hshape : raw.shape = [tokenIds.length, extent, dim]) (hrows : mask.rows = tokenIds.length)
    (hmask : mask.axisIter = tokenIds.map fun seq => (maskRow maxSeq seq).map A.ofInt) :
    meanPoolNormalize A raw mask tokenIds.length maxSeq dim =
      if ∀ seq ∈ tokenIds, min seq.length maxSeq ≤ extent then
        .ok (pooledRows A raw dim maxSeq tokenIds)
      else .error .panic := by
  have hvecs : maskedRows A raw mask maxSeq dim = pooledRows A raw dim maxSeq tokenIds := by
    refine List.ext_getElem? fun i => ?_
    rw [maskedRows, pooledRows, hmask, List.getElem?_mapIdx, List.getElem?_mapIdx,
      List.getElem?_map]
    cases tokenIds[i]? with
    | none => rfl
    | some seq => rw [Option.map_some, Option.map_some, Option.map_some, realTokens_maskRow hA]
  have hfits : (∀ row ∈ mask.axisIter, realTokens A row maxSeq ≤ extent) ↔
      ∀ seq ∈ tokenIds, min seq.length maxSeq ≤ extent := by
    rw [hmask, List.forall_mem_map]
    simp only [realTokens_maskRow hA]
  rw [meanPoolNormalize_of_shape hshape hrows, hvecs]
  simp only [hfits]

/-- **The vectors under the mask of a batch**: each row is pooled over its real positions. -/
theorem meanPoolNormalize_eq (hA : A.Lawful)
    (hshape : raw.shape = [tokenIds.length, maxSeq, dim])
    (hmask : mask.axisIter = tokenIds.map fun seq => (maskRow maxSeq seq).map A.ofInt) :
    meanPoolNormalize A raw mask tokenIds.length maxSeq dim =
      .ok (pooledRows A raw dim maxSeq tokenIds) := by
  have hrows : mask.rows = tokenIds.length := by
    have hlen := congrArg List.length hmask
    rwa [Array2.axisIter, List.length_map, List.length_range, List.length_map] at hlen
  rw [meanPoolNormalize_of_width hA hshape hrows hmask]
  exact if_pos fun _ _ => Nat.min_le_right _ _

/-! ### The rows of the reference -/

/-- The body of the loop of the reference over the positions. -/
theorem referenceRow_foldlM (hA : A.Lawful) (hshape : raw.shape = [batch, maxSeq, dim])
    (hi : i < batch) {mask : Array2 F} {r : ℕ} (hcount : A.CountsTo r)
    (hmask : ∀ j < maxSeq, mask.get? i j = some (A.ofInt (if j < r then 1 else 0)))
    (hn : n ≤ maxSeq) :
    (List.range n).foldlM (fun (vec, count) j => do
      let m ← mask.get? i j
      if A.isPos m then
        let count := A.add64 count A.one64
        let vec ← referenceAdd A raw dim i j vec
        return (vec, count)
      else return (vec, count)) (List.replicate dim A.zero, A.zero64) =
      some (sumPrefix A raw dim i (min n r), A.ofNat64 (min n r)) := by
  induction n with
  | zero =>
    rw [Nat.zero_min, hcount.zero]
    rfl
  | succ n ih =>
    rw [List.range_succ, List.foldlM_append, ih (by omega)]
    simp only [Option.bind_eq_bind, Option.bind_some, List.foldlM_cons, List.foldlM_nil,
      Option.pure_def, hmask n (by omega)]
    by_cases hnr : n < r
    · have hmin : min n r = n := by omega
      have hmin' : min (n + 1) r = n + 1 := by omega
      rw [if_pos hnr, hA.isPos_ofInt_one, if_pos rfl, hmin, hmin',
        referenceAdd_eq hshape hi (by omega) (length_sumPrefix raw dim i n), sumPrefix_succ,
        hcount.succ n hnr]
      rfl
    · have hmin : min (n + 1) r = min n r := by omega
      rw [if_neg hnr, hA.isPos_ofInt_zero, hmin]
      rfl

/-- A row of the reference, under the mask of a sequence. -/
theorem referenceRow_eq (hA : A.Lawful) (hshape : raw.shape = [batch, maxSeq, dim])
    (hi : i < batch) {mask : Array2 F} {r : ℕ} (hr : r ≤ maxSeq) (hcount : A.CountsTo r)
    (hmask : ∀ j < maxSeq, mask.get? i j = some (A.ofInt (if j < r then 1 else 0))) :
    referenceRow A raw mask maxSeq dim i = some (pooledRow A raw dim i r) := by
  rw [referenceRow, referenceRow_foldlM hA hshape hi hcount hmask le_rfl, Nat.min_eq_right hr]
  rfl

/-- The reference gives the same vectors. -/
theorem referenceMeanPoolNormalize_eq (hA : A.Lawful)
    (hcount : ∀ seq ∈ tokenIds, A.CountsTo (min seq.length maxSeq))
    (hshape : raw.shape = [tokenIds.length, maxSeq, dim]) (hrows : mask.rows = tokenIds.length)
    (hmask : mask.axisIter = tokenIds.map fun seq => (maskRow maxSeq seq).map A.ofInt) :
    referenceMeanPoolNormalize A raw mask tokenIds.length maxSeq dim =
      some (pooledRows A raw dim maxSeq tokenIds) := by
  rw [referenceMeanPoolNormalize]
  refine mapM_eq_pure (by simp [pooledRows]) fun i k vec hk hvec => ?_
  obtain ⟨hi, rfl⟩ := List.getElem?_eq_some_iff.1 hk
  rw [List.length_range] at hi
  rw [pooledRows, List.getElem?_mapIdx, List.getElem?_eq_getElem hi, Option.map_some] at hvec
  rw [List.getElem_range, ← Option.some.inj hvec]
  refine referenceRow_eq hA hshape hi (Nat.min_le_right _ _)
    (hcount _ (List.getElem_mem hi)) fun j hj => ?_
  have hrow : mask.row i = (maskRow maxSeq tokenIds[i]).map A.ofInt := by
    have h := congrArg (·[i]?) hmask
    simp only [Array2.axisIter, List.getElem?_map, List.getElem?_range (hrows.symm ▸ hi),
      List.getElem?_eq_getElem hi, Option.map_some, Option.some.injEq] at h
    exact h
  rw [Array2.get?_eq_row _ (hrows.symm ▸ hi), hrow]
  exact getElem?_maskRow A maxSeq j tokenIds[i] hj

/-- Two hidden states with the same elements are equal. -/
theorem hiddenState_ext {raw' : ArrayViewD F} {batch' maxSeq' i' : ℕ}
    (hshape : raw.shape = [batch, maxSeq, dim]) (hshape' : raw'.shape = [batch', maxSeq', dim])
    (hi : i < batch) (hi' : i' < batch') (hj : j < maxSeq) (hj' : j < maxSeq')
    (h : ∀ k < dim, raw.get? [i, j, k] = raw'.get? [i', j, k]) :
    hiddenState raw i j = hiddenState raw' i' j := by
  obtain ⟨hlen, hget⟩ := hiddenState_spec hshape hi hj
  obtain ⟨hlen', hget'⟩ := hiddenState_spec hshape' hi' hj'
  refine List.ext_getElem? fun k => ?_
  by_cases hk : k < dim
  · rw [hget, hget', h k hk]
  · rw [List.getElem?_eq_none (by omega), List.getElem?_eq_none (by omega)]

end

/-- **Prefix pooling is masked pooling, and it does not see padding.** Under the mask that is
built for a batch, the function gives the vectors of the plain loop, and the vector of a row is
that of any row of any other batch which has as many real positions with the same hidden states
there, whatever the padding, the pad id, the width and the other rows are. -/
theorem mean_pool_eq_reference (A : Arith F D) (hA : A.Lawful) (tokenIds : List (List UInt32))
    (maxSeq dim : ℕ) (padId : UInt32) (withTti : Bool) (raw : ArrayViewD F)
    (hcount : ∀ seq ∈ tokenIds, A.CountsTo (min seq.length maxSeq))
    (hshape : raw.shape = [tokenIds.length, maxSeq, dim]) :
    ∃ mask vecs, buildMask A tokenIds maxSeq padId withTti = .ok mask ∧
      meanPoolNormalize A raw mask tokenIds.length maxSeq dim = .ok vecs ∧
      referenceMeanPoolNormalize A raw mask tokenIds.length maxSeq dim = some vecs ∧
      ∀ (tokenIds' : List (List UInt32)) (maxSeq' : ℕ) (padId' : UInt32) (withTti' : Bool)
        (raw' : ArrayViewD F) (mask' : Array2 F) (vecs' : List (List F)),
        raw'.shape = [tokenIds'.length, maxSeq', dim] →
        buildMask A tokenIds' maxSeq' padId' withTti' = .ok mask' →
        meanPoolNormalize A raw' mask' tokenIds'.length maxSeq' dim = .ok vecs' →
        ∀ (i i' : ℕ) (seq seq' : List UInt32),
          tokenIds[i]? = some seq → tokenIds'[i']? = some seq' →
          min seq.length maxSeq = min seq'.length maxSeq' →
          (∀ j < min seq.length maxSeq, ∀ k < dim, raw.get? [i, j, k] = raw'.get? [i', j, k]) →
          vecs[i]? = vecs'[i']? := by
  obtain ⟨mask, hbuild, hrows, hmask⟩ := buildMask_eq A tokenIds maxSeq padId withTti
  refine ⟨mask, _, hbuild, meanPoolNormalize_eq hA hshape hmask,
    referenceMeanPoolNormalize_eq hA hcount hshape hrows hmask, ?_⟩
  intro tokenIds' maxSeq' padId' withTti' raw' mask' vecs' hshape' hbuild' hpool' i i' seq seq'
    hseq hseq' hmin hstate
  obtain ⟨mask'', hbuild'', -, hmask'⟩ := buildMask_eq A tokenIds' maxSeq' padId' withTti'
  obtain rfl : mask'' = mask' := Except.ok.inj (hbuild''.symm.trans hbuild')
  rw [meanPoolNormalize_eq hA hshape' hmask'] at hpool'
  obtain rfl := Except.ok.inj hpool'
  rw [pooledRows, pooledRows, List.getElem?_mapIdx, List.getElem?_mapIdx, hseq, hseq',
    Option.map_some, Option.map_some, ← hmin]
  refine congrArg some (pooledRow_congr A fun j hj => ?_)
  have hi := (List.getElem?_eq_some_iff.1 hseq).1
  have hi' := (List.getElem?_eq_some_iff.1 hseq').1
  exact hiddenState_ext hshape hshape' hi hi' (by omega) (by omega) (hstate j hj)

/-- Exact arithmetic, with square roots of the squares of fractions. -/
def exactArith : Arith ℚ ℚ where
  zero := 0
  one := 1
  add := (· + ·)
  mul := (· * ·)
  div := (· / ·)
  isZero x := x == 0
  isPos x := decide (0 < x)
  isNan _ := false
  le x y := decide (x ≤ y)
  ofInt z := z
  ofNat n := n
  widen := id
  narrow := id
  zero64 := 0
  one64 := 1
  sumStart := 0
  add64 := (· + ·)
  mul64 := (· * ·)
  div64 := (· / ·)
  sqrt64 x := mkRat x.num.toNat.sqrt x.den.sqrt
  isPos64 x := decide (0 < x)
  ofNat64 n := n

theorem exactArith_lawful : exactArith.Lawful where
  isZero_ofInt_zero := by decide +kernel
  isZero_ofInt_one := by decide +kernel
  isPos_ofInt_zero := by decide +kernel
  isPos_ofInt_one := by decide +kernel

theorem exactArith_countsTo (n : ℕ) : exactArith.CountsTo n where
  zero := Nat.cast_zero
  succ m _ := Nat.cast_succ m

/-- Two sequences, one shorter than the width, with a transposed tensor: its rows are not
contiguous. -/
theorem mean_pool_eq_reference_transposed :
    ∃ mask vecs, buildMask exactArith [[7], [7, 8, 9]] 2 0 false = .ok mask ∧
      meanPoolNormalize exactArith ⟨[(2, 1), (2, 2), (4, 4)], fun o => o⟩ mask 2 2 4 = .ok vecs ∧
      referenceMeanPoolNormalize exactArith ⟨[(2, 1), (2, 2), (4, 4)], fun o => o⟩ mask 2 2 4 =
        some vecs := by
  obtain ⟨mask, vecs, hbuild, hpool, href, -⟩ := mean_pool_eq_reference exactArith
    exactArith_lawful [[7], [7, 8, 9]] 2 4 0 false ⟨[(2, 1), (2, 2), (4, 4)], fun o => o⟩
    (fun seq _ => exactArith_countsTo _) rfl
  exact ⟨mask, vecs, hbuild, hpool, href⟩

end OxEmbed.Pooling

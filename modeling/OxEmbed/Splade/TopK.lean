import OxEmbed.Splade.Encode
import Mathlib.Analysis.SpecialFunctions.Log.Basic

/-!
# The sparse vector is an exact selection

The weights of a text are computed in one sweep over the logits, in a buffer that a thread keeps
from one request to the next, and the heaviest entries are selected from them with a partial sort.
When the operations on floats are exact, the weight of an entry is the largest over the positions
of `ln (1 + max x 0)`, and the entries that are kept are the heaviest ones, the heaviest first.

Ids of tokens are 32 bits wide, so a vocabulary that is larger has entries with the same id.

## Main definitions

* `SpladeArith.Exact` : the operations on floats are exact, and `weight` stands for `ln (1 + x)`.
* `pooledSweep`, `selectEntries` : the sweep in the buffer, and the entries selected from it.
* `ExactTopK` : what a selection owes.

## Main results

* `pooledSweep_eq` : what the buffer held does not matter.
* `sweep_eq_maxWeight` : the weights are the largest over the positions.
* `exactTopK_topEntries` : the entries are an exact selection.
* `encodeSparse_exact` : the sparse vector of a text is one.
-/

namespace OxEmbed.Splade

open Pooling

variable {F : Type}

/-! ### The buffer -/

/-- `Vec::clear`. -/
def clear (_buf : List F) : List F := []

/-- `Vec::resize`. -/
def resize (buf : List F) (newLen : ℕ) (value : F) : List F :=
  buf.take newLen ++ List.replicate (newLen - buf.length) value

/-- The sweep in the buffer of the thread. -/
def pooledSweep (A : SpladeArith F) (buf : List F) (raw : ArrayViewD F) (mask : List ℤ)
    (seqLen vocab : ℕ) : Except Failure (List F) :=
  (List.range seqLen).foldlM (sweepPosition A raw mask vocab) (resize (clear buf) vocab A.zero)

/-- The closure that borrows the buffer: what the buffer holds after it, and the entries. -/
def selectEntries (A : SpladeArith F) (S : SelectNth A) (buf : List F) (raw : ArrayViewD F)
    (mask : List ℤ) (seqLen vocab topK : ℕ) (minWeight : F) :
    Except Failure (List F × List (Entry F)) :=
  match pooledSweep A buf raw mask seqLen vocab with
  | .error e => .error e
  | .ok sparse => .ok (sparse, topEntries A S topK (collect A minWeight sparse))

/-- **What the buffer held before does not matter.** -/
theorem pooledSweep_eq (A : SpladeArith F) (buf : List F) (raw : ArrayViewD F) (mask : List ℤ)
    (seqLen vocab : ℕ) :
    pooledSweep A buf raw mask seqLen vocab = sweep A raw mask seqLen vocab := by
  rw [pooledSweep, sweep, resize, clear, List.take_nil, List.nil_append, List.length_nil,
    Nat.sub_zero]

/-! ### Exact operations -/

/-- The operations on floats are those of an order, and `weight x` is `ln (1 + x)`. -/
structure SpladeArith.Exact [LinearOrder F] (A : SpladeArith F) (weight : F → F) : Prop where
  gt : ∀ x y, A.gt x y = decide (y < x)
  totalCmp : ∀ x y, A.totalCmp x y = compare x y
  isZero_ofInt_one : A.isZero (A.ofInt 1) = false
  weight_eq : ∀ x, A.zero < x → A.mul (A.ln (A.add A.one x)) (A.ofInt 1) = weight x
  weight_zero : weight A.zero = A.zero
  weight_lt : ∀ x y, A.zero ≤ x → x < y → weight x < weight y

/-- The logit of an entry at a position. -/
def logit (A : SpladeArith F) (raw : ArrayViewD F) (k j : ℕ) : F :=
  (raw.get? [0, j, k]).getD A.zero

/-- The largest weight of an entry over the first positions. -/
def maxWeight [LinearOrder F] (A : SpladeArith F) (weight : F → F) (raw : ArrayViewD F) (k : ℕ) :
    ℕ → F
  | 0 => A.zero
  | n + 1 => max (maxWeight A weight raw k n) (weight (max (logit A raw k n) A.zero))

/-- The entries in `out` are the `topK` heaviest of those with a weight above the threshold, the
heaviest first. -/
structure ExactTopK [LinearOrder F] (sparse : List F) (minWeight : F) (topK : ℕ)
    (out : List (Entry F)) : Prop where
  ids : (out.map Prod.fst).Nodup
  own : ∀ e ∈ out, sparse[e.1.toNat]? = some e.2
  above : ∀ e ∈ out, minWeight < e.2
  sorted : out.Pairwise fun a b => b.2 ≤ a.2
  length : out.length = min topK (sparse.countP fun w => minWeight < w)
  omitted : ∀ k w, sparse[k]? = some w → minWeight < w → (UInt32.ofNat k) ∉ out.map Prod.fst →
    ∀ e ∈ out, w ≤ e.2

variable [LinearOrder F] {A : SpladeArith F} {weight : F → F} {S : SelectNth A}
  {raw : ArrayViewD F} {seqLen vocab : ℕ}

/-! ### The sweep -/

section Sweep

variable (hA : A.Exact weight)

include hA

theorem SpladeArith.Exact.weight_nonneg {x : F} (hx : A.zero ≤ x) : A.zero ≤ weight x := by
  rcases hx.eq_or_lt with rfl | hx
  · exact hA.weight_zero.ge
  · exact hA.weight_zero ▸ (hA.weight_lt _ _ le_rfl hx).le

omit hA in
theorem zero_le_maxWeight (k n : ℕ) : A.zero ≤ maxWeight A weight raw k n := by
  induction n with
  | zero => exact le_rfl
  | succ n ih => exact ih.trans (le_max_left _ _)

/-- **The largest weight is the weight of one of the positions, and no smaller than any.** -/
theorem isGreatest_maxWeight (k : ℕ) {n : ℕ} (hn : 0 < n) :
    IsGreatest {w | ∃ j < n, w = weight (max (logit A raw k j) A.zero)}
      (maxWeight A weight raw k n) := by
  induction n with
  | zero => exact absurd hn (lt_irrefl 0)
  | succ n ih =>
    rcases Nat.eq_zero_or_pos n with rfl | hn
    · -- one position, whose weight is not negative
      have hle : A.zero ≤ weight (max (logit A raw k 0) A.zero) :=
        hA.weight_nonneg (le_max_right _ _)
      rw [maxWeight, maxWeight, max_eq_right hle]
      refine ⟨⟨0, Nat.one_pos, rfl⟩, ?_⟩
      rintro w ⟨j, hj, rfl⟩
      rw [Nat.lt_one_iff.1 hj]
    · obtain ⟨⟨j, hj, hmem⟩, hub⟩ := ih hn
      rw [maxWeight]
      constructor
      · rcases max_choice (maxWeight A weight raw k n)
          (weight (max (logit A raw k n) A.zero)) with h | h
        · exact ⟨j, hj.trans (Nat.lt_succ_self n), h.trans hmem⟩
        · exact ⟨n, Nat.lt_succ_self n, h⟩
      · rintro w ⟨i, hi, rfl⟩
        rcases Nat.lt_succ_iff_lt_or_eq.1 hi with hi | rfl
        · exact (hub ⟨i, hi, rfl⟩).trans (le_max_left _ _)
        · exact le_max_right _ _

/-- One cell: the entry gets the weight of the position if it is larger. -/
theorem sweepCell_eq {sparse : List F} {j k : ℕ} {lo best : F}
    (hlo : raw.get? [0, j, k] = some lo) (hbest : sparse[k]? = some best) (hpos : A.zero ≤ best) :
    sweepCell A raw (A.ofInt 1) j sparse k =
      .ok (sparse.set k (max best (weight (max (logit A raw k j) A.zero)))) := by
  obtain ⟨hk, hget⟩ := List.getElem?_eq_some_iff.1 hbest
  have hself : sparse.set k best = sparse := by rw [← hget, List.set_getElem_self]
  have hlogit : logit A raw k j = lo := by rw [logit, hlo]; rfl
  rw [sweepCell, hlo, hbest, hlogit]
  dsimp only
  rw [hA.gt]
  by_cases hlt : A.zero < lo
  · rw [if_pos (decide_eq_true hlt), hA.weight_eq lo hlt, hA.gt, max_eq_left hlt.le]
    by_cases hw : best < weight lo
    · rw [if_pos (decide_eq_true hw), max_eq_right hw.le]
    · rw [if_neg (by simpa using hw), max_eq_left (not_lt.1 hw), hself]
  · rw [if_neg (by simpa using hlt), max_eq_right (not_lt.1 hlt), hA.weight_zero,
      max_eq_left hpos, hself]

variable (hshape : raw.shape = [1, seqLen, vocab])

include hshape

/-- The inner loop over the first `n` entries. -/
theorem foldlM_sweepCell {sparse : List F} {best : ℕ → F} {j : ℕ} (hj : j < seqLen)
    (hsparse : ∀ k < vocab, sparse[k]? = some (best k)) (hpos : ∀ k, A.zero ≤ best k) {n : ℕ}
    (hn : n ≤ vocab) :
    ∃ sparse', (List.range n).foldlM (sweepCell A raw (A.ofInt 1) j) sparse = .ok sparse' ∧
      sparse'.length = sparse.length ∧ ∀ k < vocab, sparse'[k]? = some
        (if k < n then max (best k) (weight (max (logit A raw k j) A.zero)) else best k) := by
  induction n with
  | zero => exact ⟨sparse, rfl, rfl, hsparse⟩
  | succ n ih =>
    obtain ⟨sparse', hfold, hlen, hget⟩ := ih (Nat.le_of_succ_le hn)
    obtain ⟨lo, hlo⟩ : ∃ lo, raw.get? [0, j, n] = some lo :=
      raw.exists_get? (by simp [hshape, hj, Nat.lt_of_succ_le hn])
    have hbest : sparse'[n]? = some (best n) := by
      rw [hget n (Nat.lt_of_succ_le hn), if_neg (lt_irrefl n)]
    refine ⟨sparse'.set n (max (best n) (weight (max (logit A raw n j) A.zero))), ?_, ?_,
      fun k hk => ?_⟩
    · rw [List.range_succ, List.foldlM_append, hfold]
      change [n].foldlM (sweepCell A raw (A.ofInt 1) j) sparse' = _
      rw [List.foldlM_cons, sweepCell_eq hA hlo hbest (hpos n)]
      rfl
    · rw [List.length_set, hlen]
    · have hnlen : n < sparse'.length := (List.getElem?_eq_some_iff.1 hbest).1
      by_cases hkn : k = n
      · subst hkn
        rw [List.getElem?_set_self hnlen, if_pos (Nat.lt_succ_self k)]
      · rw [List.getElem?_set_ne (Ne.symm hkn), hget k hk]
        have hiff : k < n ↔ k < n + 1 := by omega
        simp only [hiff]

/-- The outer loop over the first `n` positions. -/
theorem foldlM_sweepPosition {n : ℕ} (hn : n ≤ seqLen) :
    ∃ sparse, (List.range n).foldlM (sweepPosition A raw (List.replicate seqLen 1) vocab)
        (List.replicate vocab A.zero) = .ok sparse ∧
      sparse.length = vocab ∧ ∀ k < vocab, sparse[k]? = some (maxWeight A weight raw k n) := by
  induction n with
  | zero =>
    refine ⟨_, rfl, List.length_replicate .., fun k hk => ?_⟩
    rw [List.getElem?_replicate, if_pos hk]
    rfl
  | succ n ih =>
    obtain ⟨sparse, hfold, hlen, hget⟩ := ih (Nat.le_of_succ_le hn)
    have hn' : n < seqLen := Nat.lt_of_succ_le hn
    obtain ⟨sparse', hcells, hlen', hget'⟩ := foldlM_sweepCell hA hshape hn' hget
      (fun k => zero_le_maxWeight k n) (le_refl vocab)
    refine ⟨sparse', ?_, hlen'.trans hlen, fun k hk => ?_⟩
    · rw [List.range_succ, List.foldlM_append, hfold]
      change [n].foldlM (sweepPosition A raw (List.replicate seqLen 1) vocab) sparse = _
      have hmask : (List.replicate seqLen (1 : ℤ))[n]? = some 1 := by
        rw [List.getElem?_replicate, if_pos hn']
      rw [List.foldlM_cons, sweepPosition, hmask]
      dsimp only
      rw [if_neg (by simp [hA.isZero_ofInt_one]), hcells]
      rfl
    · rw [hget' k hk, if_pos hk]
      rfl

/-- **The weights are the largest over the positions.** -/
theorem sweep_eq_maxWeight :
    ∃ sparse, sweep A raw (List.replicate seqLen 1) seqLen vocab = .ok sparse ∧
      sparse.length = vocab ∧ ∀ k < vocab, sparse[k]? = some (maxWeight A weight raw k seqLen) :=
  foldlM_sweepPosition hA hshape le_rfl

end Sweep

/-! ### The selection -/

section Selection

variable {sparse : List F} {minWeight : F} {topK : ℕ}

/-- The entries above the threshold. -/
theorem mem_collect (hA : A.Exact weight) {e : Entry F} : e ∈ collect A minWeight sparse ↔
    ∃ k, sparse[k]? = some e.2 ∧ minWeight < e.2 ∧ e.1 = UInt32.ofNat k := by
  rw [collect, List.mem_filterMap]
  constructor
  · rintro ⟨p, hp, he⟩
    have hget := List.mem_zipIdx_iff_getElem?.1 hp
    split at he
    next hgt =>
      rw [hA.gt, decide_eq_true_eq] at hgt
      rw [← Option.some.inj he]
      exact ⟨p.2, hget, hgt, rfl⟩
    · cases he
  · rintro ⟨k, hk, hgt, hid⟩
    refine ⟨(e.2, k), List.mk_mem_zipIdx_iff_getElem?.2 hk, ?_⟩
    rw [if_pos (by rw [hA.gt]; exact decide_eq_true hgt), ← hid]

theorem length_collect (hA : A.Exact weight) :
    (collect A minWeight sparse).length = sparse.countP fun w => minWeight < w := by
  rw [collect, List.length_filterMap_eq_countP]
  conv_rhs => rw [← List.zipIdx_map_fst 0 sparse, List.countP_map]
  refine List.countP_congr fun p _ => ?_
  rw [hA.gt]
  by_cases hlt : minWeight < p.1 <;> simp [hlt]

theorem toNat_ofNat_index {k : ℕ} (hk : k < 2 ^ 32) : (UInt32.ofNat k).toNat = k :=
  UInt32.toNat_ofNat_of_lt' hk

omit [LinearOrder F] in
/-- As long as ids have enough bits, the ids of the entries are different. -/
theorem nodup_collect (hlen : sparse.length ≤ 2 ^ 32) :
    ((collect A minWeight sparse).map Prod.fst).Nodup := by
  have hindex : sparse.zipIdx.Pairwise fun p q => p.2 ≠ q.2 := by
    rw [← List.pairwise_map, List.zipIdx_map_snd]
    exact List.nodup_range'
  refine List.pairwise_map.2 (List.pairwise_filterMap.2 (hindex.imp_of_mem ?_))
  intro p q hp hq hne b hb b' hb' heq
  have hp' := List.snd_lt_of_mem_zipIdx hp
  have hq' := List.snd_lt_of_mem_zipIdx hq
  split at hb
  · split at hb'
    · rw [← Option.some.inj hb, ← Option.some.inj hb'] at heq
      have hnat := congrArg UInt32.toNat heq
      rw [toNat_ofNat_index (by omega), toNat_ofNat_index (by omega)] at hnat
      exact hne hnat
    · cases hb'
  · cases hb

theorem SpladeArith.Exact.comparesBy (hA : A.Exact weight) : A.ComparesBy id := hA.totalCmp

/-- The entries that are kept, sorted. -/
theorem sorted_topEntries (hA : A.Exact weight) (entries : List (Entry F)) :
    (topEntries A S topK entries).Pairwise fun a b => b.2 ≤ a.2 :=
  (pairwise_heavier hA.comparesBy _).imp (heavier_iff_key hA.comparesBy).1

omit [LinearOrder F] in
variable (A S topK) in
/-- The entries that are kept are some of the entries. -/
theorem subperm_topEntries (entries : List (Entry F)) :
    (topEntries A S topK entries).Subperm entries := by
  rw [topEntries]
  refine (List.perm_insertionSort _ _).subperm.trans ?_
  split
  · exact (List.take_sublist _ _).subperm.trans (S.perm _ _).subperm
  · exact List.Subperm.refl entries

/-- **No entry that is left out is heavier than one that is kept.** -/
theorem le_of_notMem_topEntries (hA : A.Exact weight) (htopK : topK ≠ 0)
    {entries : List (Entry F)} {e e' : Entry F} (he : e ∈ topEntries A S topK entries)
    (he' : e' ∈ entries) (hout : e' ∉ topEntries A S topK entries) : e'.2 ≤ e.2 := by
  rw [topEntries, List.mem_insertionSort] at he hout
  split at he
  next hlen =>
    have hnth : topK - 1 + 1 = topK := Nat.sub_one_add_one htopK
    rw [if_pos hlen] at hout
    have hmem : e' ∈ S.select (topK - 1) entries := (S.perm _ _).symm.subset he'
    rw [← List.take_append_drop topK (S.select (topK - 1) entries)] at hmem
    have hsplit := S.split (topK - 1) entries (by omega)
    rw [hnth] at hsplit
    exact (heavier_iff_key hA.comparesBy).1
      (hsplit e he e' ((List.mem_append.1 hmem).resolve_left hout))
  next hlen =>
    rw [if_neg hlen] at hout
    exact absurd he' hout

/-- **The entries that are kept are an exact selection**, as long as ids have enough bits. -/
theorem exactTopK_topEntries (hA : A.Exact weight) (hlen : sparse.length ≤ 2 ^ 32)
    (htopK : topK ≠ 0) :
    ExactTopK sparse minWeight topK (topEntries A S topK (collect A minWeight sparse)) where
  ids := by
    obtain ⟨kept, hperm, hsub⟩ := subperm_topEntries A S topK (collect A minWeight sparse)
    exact (hperm.map Prod.fst).nodup_iff.1 ((hsub.map Prod.fst).nodup (nodup_collect hlen))
  own e he := by
    obtain ⟨k, hk, -, hid⟩ := (mem_collect hA).1 (mem_of_mem_topEntries he)
    have hlt : k < sparse.length := (List.getElem?_eq_some_iff.1 hk).1
    rw [hid, toNat_ofNat_index (by omega), hk]
  above e he := by
    obtain ⟨-, -, habove, -⟩ := (mem_collect hA).1 (mem_of_mem_topEntries he)
    exact habove
  sorted := sorted_topEntries hA _
  length := by rw [length_topEntries, length_collect hA]
  omitted k w hk habove hout e he := by
    have hmem : (UInt32.ofNat k, w) ∈ collect A minWeight sparse :=
      (mem_collect hA).2 ⟨k, hk, habove, rfl⟩
    exact le_of_notMem_topEntries hA htopK he hmem fun h => hout (List.mem_map_of_mem h)

end Selection

/-! ### The sparse vector of a text -/

omit [LinearOrder F] in
/-- The sparse vector of a text, from the logits of its pass. -/
theorem encodeSparse_of_logits {M : SpladeModel} {sessions : Sessions F} {cursor : ℕ}
    {tokenIds : List UInt32} {topK : UInt64} {minWeight : F} {sparse : List F}
    (hM : M.sessions ≠ 0) (hraw : sessions cursor (inputsOf M tokenIds) = .logits raw)
    (hshape : raw.shape = [1, min tokenIds.length M.maxLen, M.vocabSize.toNat])
    (hids : tokenIds ≠ []) (htopK : topK ≠ 0)
    (hsweep : sweep A raw (List.replicate (min tokenIds.length M.maxLen) 1)
      (min tokenIds.length M.maxLen) M.vocabSize.toNat = .ok sparse) :
    encodeSparse A S M sessions cursor tokenIds topK minWeight =
      .ok (topEntries A S topK.toNat (collect A minWeight sparse)) := by
  rw [encodeSparse, if_neg hids, if_neg htopK, forwardPass_eq, if_neg hM, hraw, readOutcome,
    if_neg (by simp [hshape]), hsweep]

/-- **The sparse vector of a text is an exact selection** from weights that are the largest over the
positions and do not depend on what the buffer held, as long as the vocabulary has no more entries
than there are ids. -/
theorem encodeSparse_exact (hA : A.Exact weight) (S : SelectNth A) (M : SpladeModel)
    (hvocab : M.vocabSize.toNat ≤ 2 ^ 32) (sessions : Sessions F) (cursor : ℕ)
    (tokenIds : List UInt32) (topK : UInt64) (minWeight : F) :
    (tokenIds = [] ∨ topK = 0 →
      encodeSparse A S M sessions cursor tokenIds topK minWeight = .ok []) ∧
    ∀ raw, M.sessions ≠ 0 → sessions cursor (inputsOf M tokenIds) = .logits raw →
      raw.shape = [1, min tokenIds.length M.maxLen, M.vocabSize.toNat] →
      tokenIds ≠ [] → topK ≠ 0 →
      ∃ sparse out,
        (∀ buf, selectEntries A S buf raw (List.replicate (min tokenIds.length M.maxLen) 1)
          (min tokenIds.length M.maxLen) M.vocabSize.toNat topK.toNat minWeight =
            .ok (sparse, out)) ∧
        encodeSparse A S M sessions cursor tokenIds topK minWeight = .ok out ∧
        sparse.length = M.vocabSize.toNat ∧
        (∀ k w, sparse[k]? = some w →
          (min tokenIds.length M.maxLen = 0 → w = A.zero) ∧
          (0 < min tokenIds.length M.maxLen →
            IsGreatest {x | ∃ j < min tokenIds.length M.maxLen,
              x = weight (max (logit A raw k j) A.zero)} w)) ∧
        ExactTopK sparse minWeight topK.toNat out := by
  constructor
  · rintro (rfl | rfl)
    · rw [encodeSparse, if_pos rfl]
    · rw [encodeSparse]
      split
      · rfl
      · rw [if_pos rfl]
  · intro raw hM hraw hshape hids htopK
    obtain ⟨sparse, hsweep, hlen, hget⟩ := sweep_eq_maxWeight hA hshape
    have hnat : topK.toNat ≠ 0 := fun h => htopK (UInt64.toNat_inj.1 h)
    refine ⟨sparse, topEntries A S topK.toNat (collect A minWeight sparse), fun buf => ?_,
      encodeSparse_of_logits hM hraw hshape hids htopK hsweep, hlen, fun k w hw => ?_,
      exactTopK_topEntries hA (hlen ▸ hvocab) hnat⟩
    · rw [selectEntries, pooledSweep_eq, hsweep]
    · have hk : k < M.vocabSize.toNat := hlen ▸ (List.getElem?_eq_some_iff.1 hw).1
      obtain rfl := Option.some.inj ((hget k hk).symm.trans hw)
      refine ⟨fun hzero => ?_, fun hpos => isGreatest_maxWeight hA k hpos⟩
      rw [hzero]
      rfl

/-! ### Real numbers -/

/-- Real numbers for the floats. -/
noncomputable def realArith : SpladeArith ℝ where
  zero := 0
  one := 1
  ofInt := Int.cast
  add := (· + ·)
  mul := (· * ·)
  ln := Real.log
  isZero x := decide (x = 0)
  gt x y := decide (x > y)
  totalCmp := compare

theorem realArith_exact : realArith.Exact fun x => Real.log (1 + x) where
  gt _ _ := rfl
  totalCmp _ _ := rfl
  isZero_ofInt_one := by simp [realArith]
  weight_eq x _ := by simp [realArith]
  weight_zero := by simp [realArith]
  weight_lt x y hx hxy := by
    have hx : (0 : ℝ) ≤ x := hx
    exact Real.log_lt_log (by linarith) (by linarith)

/-- Selection by sorting. -/
noncomputable def realSelect : SelectNth realArith := sortSelect realArith_exact.comparesBy

/-- All logits are `1`. -/
noncomputable def onesSessions (M : SpladeModel) : Sessions ℝ := fun _ x =>
  .logits ⟨[(1, 0), (x.inputIds.cols, 0), (M.vocabSize.toNat, 1)], fun _ => 1⟩

/-- A model with one entry more in its vocabulary than there are ids. -/
def wideModel : SpladeModel := ⟨512, 0x100000001, 1⟩

/-- A list of different ids is not longer than there are ids. -/
theorem length_le_of_nodup_ids {ids : List UInt32} (h : ids.Nodup) : ids.length ≤ 2 ^ 32 := by
  have hnat : (ids.map UInt32.toNat).Nodup := h.map fun _ _ => UInt32.toNat_inj.1
  have hsub : ids.map UInt32.toNat ⊆ List.range (2 ^ 32) := by
    intro k hk
    obtain ⟨id, -, rfl⟩ := List.mem_map.1 hk
    exact List.mem_range.2 id.toNat_lt
  have hle := (List.subperm_of_subset hnat hsub).length_le
  rwa [List.length_map, List.length_range] at hle

/-- When all entries of a vocabulary with more entries than there are ids are active, two of them
have the same id. -/
theorem encodeSparse_wideModel : ∃ out,
    encodeSparse realArith realSelect wideModel (onesSessions wideModel) 0 [101] 0x100000001 0 =
      .ok out ∧ ¬ (out.map Prod.fst).Nodup := by
  have hvocab : wideModel.vocabSize.toNat = 2 ^ 32 + 1 := by decide
  have htopK : (0x100000001 : UInt64).toNat = 2 ^ 32 + 1 := by decide
  obtain ⟨raw, hraw, hshape, hones⟩ : ∃ raw, onesSessions wideModel 0 (inputsOf wideModel [101]) =
      .logits raw ∧ raw.shape = [1, 1, wideModel.vocabSize.toNat] ∧
        ∀ k < wideModel.vocabSize.toNat, logit realArith raw k 0 = 1 := by
    refine ⟨_, rfl, rfl, fun k hk => ?_⟩
    have hcols : (inputsOf wideModel [101]).inputIds.cols = 1 := rfl
    simp [logit, ArrayViewD.get?, ArrayViewD.axis0, hcols, hk]
  obtain ⟨sparse, hsweep, hlen, hget⟩ := sweep_eq_maxWeight realArith_exact hshape
  -- every entry is active
  have hactive : sparse.countP (fun w => (0 : ℝ) < w) = 2 ^ 32 + 1 := by
    rw [← hvocab, ← hlen, List.countP_eq_length]
    intro w hw
    obtain ⟨k, hk, rfl⟩ := List.mem_iff_getElem.1 hw
    have hmax := hget k (hlen ▸ hk)
    rw [List.getElem?_eq_getElem hk, maxWeight, maxWeight, hones k (hlen ▸ hk)] at hmax
    have hlog : (0 : ℝ) < Real.log (1 + max 1 0) := Real.log_pos (by norm_num)
    rw [Option.some.inj hmax, decide_eq_true_eq]
    exact lt_max_of_lt_right hlog
  refine ⟨_, encodeSparse_of_logits (by decide) hraw hshape (by decide) (by decide) hsweep, ?_⟩
  intro hnodup
  have hle := length_le_of_nodup_ids hnodup
  rw [List.length_map, length_topEntries, length_collect realArith_exact, hactive, htopK] at hle
  omega

/-- A text of two tokens over a vocabulary of the usual size. -/
theorem encodeSparse_exact_bert : ∃ sparse out,
    encodeSparse realArith realSelect ⟨512, 30522, 1⟩ (onesSessions ⟨512, 30522, 1⟩) 0 [101, 102]
      256 0 = .ok out ∧ ExactTopK sparse 0 256 out := by
  obtain ⟨sparse, out, -, hout, -, -, hexact⟩ := (encodeSparse_exact realArith_exact realSelect
    ⟨512, 30522, 1⟩ (by decide) (onesSessions ⟨512, 30522, 1⟩) 0 [101, 102] 256 0).2 _ (by decide)
    rfl rfl (by decide) (by decide)
  exact ⟨sparse, out, hout, hexact⟩

end OxEmbed.Splade

import Mathlib.Algebra.Order.Field.Basic
import Mathlib.Analysis.SpecialFunctions.Exp
import OxEmbed.Library.Ranking
import OxEmbed.Library.Splice

/-!
# The results of a request

`apply_normalize` and `build_sorted_results` of `api_rerank.rs`: the scores of the documents are
normalised, sorted, the largest first, and cut to the number of results that the request asks for.
The sort is stable: documents with the same score keep their order.

The sigmoid is applied to scores clamped to an interval. It is strictly increasing inside of the
interval, and constant on either side of it. Scores are elements of an ordered field with an
exponential.

## Main definitions

* `NormalizeMode`, `applyNormalize` : the normalisation.
* `buildSortedResults`, `rankedIndices` : the results and their indices.
* `SaturationSafe` : among the results no two scores are clamped to one bound against their order.

## Main results

* `exists_ranking` : the indices are the first places of a ranking of the documents.
* `sigmoid_eq_iff` : which scores the sigmoid does not tell apart.
* `rankedIndices_sigmoid_iff` : exactly when the sigmoid keeps the sequence of the results.
-/

namespace OxEmbed.Rerank

open Ranking Splice

variable {F : Type} [Field F] [LinearOrder F]

/-! ### Normalisation -/

inductive NormalizeMode
  | none
  | sigmoid
  deriving DecidableEq, Repr

instance : Inhabited NormalizeMode := ⟨.sigmoid⟩

/-- `SIGMOID_CLAMP`. -/
def sigmoidClamp : F := 50

/-- `s.clamp(-SIGMOID_CLAMP, SIGMOID_CLAMP)`. -/
def clamp (s : F) : F := max (-sigmoidClamp) (min s sigmoidClamp)

/-- The sigmoid of a clamped score. -/
def sigmoid (exp : F → F) (s : F) : F := 1 / (1 + exp (-clamp s))

/-- `apply_normalize`. -/
def applyNormalize (exp : F → F) (scores : List F) : NormalizeMode → List F
  | .none => scores
  | .sigmoid => scores.map (sigmoid exp)

/-! ### Sorting -/

/-- `RerankResult`; `document` is the text that is echoed. -/
structure RerankResult (F : Type) where
  index : ℕ
  relevanceScore : F
  document : Option String
  deriving DecidableEq

/-- The result of a document, `none` if its text is out of bounds. -/
def resultOf (documents : Option (List String)) (p : F × ℕ) : Option (RerankResult F) :=
  match documents with
  | none => some ⟨p.2, p.1, none⟩
  | some d => d[p.2]?.map fun text => ⟨p.2, p.1, some text⟩

/-- `truncate`, when there is a limit. -/
def truncate {α : Type} (topN : Option ℕ) (l : List α) : List α :=
  match topN with
  | some n => l.take n
  | none => l

/-- `build_sorted_results`; `none` if it panics. -/
def buildSortedResults (scores : List F) (topN : Option ℕ) (documents : Option (List String)) :
    Option (List (RerankResult F)) :=
  (scores.zipIdx.mapM (resultOf documents)).map fun scored =>
    truncate topN (scored.insertionSort fun a b => b.relevanceScore ≤ a.relevanceScore)

/-- The document indices of the results. -/
def rankedIndices (scores : List F) (topN : Option ℕ) (documents : Option (List String)) :
    Option (List ℕ) :=
  (buildSortedResults scores topN documents).map fun results => results.map RerankResult.index

/-- The score of a document. -/
def scoreOf (scores : List F) (i : ℕ) : F := scores.getD i 0

/-- How many documents are ranked before the document `j` by the raw scores. -/
def rankOf (scores : List F) (j : ℕ) : ℕ :=
  (List.range scores.length).countP fun k => Before (scoreOf scores) k j

/-- When a document has a larger score than one before it and both scores are clamped to the same
bound, it is not among the results. -/
def SaturationSafe (scores : List F) (topN : Option ℕ) : Prop :=
  ∀ i j, i < j → j < scores.length → scoreOf scores i < scoreOf scores j →
    (sigmoidClamp ≤ scoreOf scores i ∨ scoreOf scores j ≤ -sigmoidClamp) →
      ∃ n, topN = some n ∧ n ≤ rankOf scores j

/-- The texts to echo do not cover the documents. -/
def TooFew (documents : Option (List String)) (count : ℕ) : Prop :=
  ∃ d, documents = some d ∧ d.length < count

/-! ### The sigmoid -/

section Sigmoid

variable [IsStrictOrderedRing F] {exp : F → F} {s t : F}

omit [IsStrictOrderedRing F] in
theorem clamp_monotone : Monotone (clamp : F → F) := fun _ _ h =>
  max_le_max le_rfl (min_le_min h le_rfl)

theorem neg_sigmoidClamp_lt : -sigmoidClamp < (sigmoidClamp : F) := by
  norm_num [sigmoidClamp]

/-- Two scores are clamped to the same bound. -/
theorem clamp_eq_iff (h : s < t) : clamp s = clamp t ↔ sigmoidClamp ≤ s ∨ t ≤ -sigmoidClamp := by
  have hbound := neg_sigmoidClamp_lt (F := F)
  rw [clamp, clamp]
  constructor
  · intro heq
    by_contra hnot
    push Not at hnot
    obtain ⟨hs, ht⟩ := hnot
    rw [min_eq_left hs.le] at heq
    have hlt : max (-sigmoidClamp) s < max (-sigmoidClamp) (min t sigmoidClamp) :=
      max_lt (lt_max_of_lt_right (lt_min ht hbound)) (lt_max_of_lt_right (lt_min h hs))
    exact absurd heq hlt.ne
  · rintro (hs | ht)
    · rw [min_eq_right hs, min_eq_right (hs.trans h.le)]
    · rw [min_eq_left (ht.trans hbound.le), min_eq_left ((h.le.trans ht).trans hbound.le),
        max_eq_left ht, max_eq_left (h.le.trans ht)]

variable (hexp : StrictMono exp) (hpos : ∀ x, 0 < exp x)

include hexp hpos

/-- The logistic function is strictly increasing. -/
theorem logistic_strictMono : StrictMono fun x => 1 / (1 + exp (-x)) := by
  intro x y h
  have hlt : exp (-y) < exp (-x) := hexp (neg_lt_neg h)
  exact one_div_lt_one_div_of_lt (add_pos one_pos (hpos _)) (by linarith)

theorem sigmoid_monotone : Monotone (sigmoid exp) :=
  (logistic_strictMono hexp hpos).monotone.comp clamp_monotone

/-- **The sigmoid does not tell two scores apart when they are clamped to the same bound.** -/
theorem sigmoid_eq_iff (h : s < t) :
    sigmoid exp s = sigmoid exp t ↔ sigmoidClamp ≤ s ∨ t ≤ -sigmoidClamp := by
  rw [← clamp_eq_iff h]
  exact (logistic_strictMono hexp hpos).injective.eq_iff

end Sigmoid

/-! ### The ranking -/

section Ranking

variable {scores : List F} {topN : Option ℕ} {documents : Option (List String)}

omit [Field F] in
theorem rankedIndices_of_tooFew (h : TooFew documents scores.length) :
    rankedIndices scores topN documents = none := by
  obtain ⟨d, rfl, hlt⟩ := h
  have hmem : (scores[d.length], d.length) ∈ scores.zipIdx :=
    List.mk_mem_zipIdx_iff_getElem?.2 (List.getElem?_eq_getElem hlt)
  have hnone : scores.zipIdx.mapM (resultOf (some d)) = none :=
    mapM_eq_none hmem (by simp [resultOf])
  rw [rankedIndices, buildSortedResults, hnone]
  rfl

/-- The result of a document whose text, if it is echoed, is within bounds. -/
def echoed (documents : Option (List String)) (p : F × ℕ) : RerankResult F :=
  ⟨p.2, p.1, documents.bind (·[p.2]?)⟩

omit [Field F] [LinearOrder F] in
theorem mapM_resultOf (h : ¬ TooFew documents scores.length) :
    scores.zipIdx.mapM (resultOf documents) = some (scores.zipIdx.map (echoed documents)) := by
  refine mapM_eq_some fun p hp => ?_
  have hlt : p.2 < scores.length :=
    (List.getElem?_eq_some_iff.1 (List.mem_zipIdx_iff_getElem?.1 hp)).1
  cases hd : documents with
  | none => rfl
  | some d =>
    have hle : scores.length ≤ d.length := not_lt.1 fun hlt => h ⟨d, hd, hlt⟩
    simp [resultOf, echoed, List.getElem?_eq_getElem (hlt.trans_le hle)]

omit [Field F] [LinearOrder F] in
variable (scores documents) in
theorem map_index_echoed :
    (scores.zipIdx.map (echoed documents)).map RerankResult.index = List.range scores.length := by
  rw [List.map_map, List.range_eq_range', ← List.zipIdx_map_snd 0 scores]
  rfl

omit [LinearOrder F] in
theorem relevanceScore_of_mem {r : RerankResult F}
    (hr : r ∈ scores.zipIdx.map (echoed documents)) :
    r.relevanceScore = scoreOf scores r.index := by
  obtain ⟨p, hp, rfl⟩ := List.mem_map.1 hr
  rw [scoreOf, List.getD_eq_getElem?_getD]
  change p.1 = scores[p.2]?.getD 0
  rw [List.mem_zipIdx_iff_getElem?.1 hp]
  rfl

/-- **The indices are the first places of a ranking of the documents by their scores**, among
documents with the same score by their order. -/
theorem exists_ranking (scores : List F) (topN : Option ℕ) (h : ¬ TooFew documents scores.length) :
    ∃ A, A.Perm (List.range scores.length) ∧ A.Pairwise (Before (scoreOf scores)) ∧
      rankedIndices scores topN documents = some (truncate topN A) := by
  set scored := scores.zipIdx.map (echoed documents) with hscored
  have hindex : scored.map RerankResult.index = List.range scores.length :=
    map_index_echoed scores documents
  have hinc : scored.Pairwise fun a b => a.index < b.index := by
    rw [← List.pairwise_map, hindex]
    exact List.pairwise_lt_range
  set sorted := scored.insertionSort fun a b => b.relevanceScore ≤ a.relevanceScore with hsorted
  have hperm : sorted.Perm scored := List.perm_insertionSort _ _
  refine ⟨sorted.map RerankResult.index, ?_, ?_, ?_⟩
  · rw [← hindex]
    exact hperm.map _
  · refine List.pairwise_map.2 ((pairwise_before_insertionSort _ _ _ hinc).imp_of_mem ?_)
    intro a b ha hb hab
    rw [relevanceScore_of_mem (hperm.subset ha), relevanceScore_of_mem (hperm.subset hb)] at hab
    exact hab
  · rw [rankedIndices, buildSortedResults, mapM_resultOf h]
    cases topN with
    | none => rfl
    | some n => exact congrArg some List.map_take

/-- A limit is a number of places. -/
theorem truncate_eq_iff {A B : List ℕ} {count : ℕ} (hA : A.length = count)
    (hB : B.length = count) :
    truncate topN A = truncate topN B ↔ A.take (topN.getD count) = B.take (topN.getD count) := by
  cases topN with
  | none => rw [Option.getD_none, List.take_of_length_le hA.le, List.take_of_length_le hB.le]; rfl
  | some n => rfl

omit [LinearOrder F] in
theorem scoreOf_map (f : F → F) {i : ℕ} (hi : i < scores.length) :
    scoreOf (scores.map f) i = f (scoreOf scores i) := by
  rw [scoreOf, scoreOf, List.getD_eq_getElem?_getD, List.getD_eq_getElem?_getD, List.getElem?_map,
    List.getElem?_eq_getElem hi]
  rfl

theorem rankOf_lt {j : ℕ} (hj : j < scores.length) : rankOf scores j < scores.length := by
  have hlt := countP_lt_length (Before.irrefl (scoreOf scores)) (List.mem_range.2 hj)
  rwa [List.length_range] at hlt

variable [IsStrictOrderedRing F] {exp : F → F}

/-- **The sigmoid keeps the sequence of the results exactly when no document among them has a larger
score than an earlier document, both clamped to the same bound.** (If the texts to echo do not cover
the documents, both calls panic.) -/
theorem rankedIndices_sigmoid_iff (hexp : StrictMono exp) (hpos : ∀ x, 0 < exp x)
    (scores : List F) (topN : Option ℕ) (documents : Option (List String)) :
    rankedIndices (applyNormalize exp scores .sigmoid) topN documents =
        rankedIndices (applyNormalize exp scores .none) topN documents ↔
      TooFew documents scores.length ∨ SaturationSafe scores topN := by
  have hlen : (scores.map (sigmoid exp)).length = scores.length := List.length_map _
  rw [applyNormalize, applyNormalize]
  by_cases hfew : TooFew documents scores.length
  · rw [rankedIndices_of_tooFew hfew, rankedIndices_of_tooFew (by rwa [hlen])]
    exact ⟨fun _ => .inl hfew, fun _ => rfl⟩
  obtain ⟨A, hAperm, hA, hAeq⟩ := exists_ranking scores topN hfew
  obtain ⟨B, hBperm, hB, hBeq⟩ :=
    exists_ranking (scores.map (sigmoid exp)) topN (by rwa [hlen])
  rw [hlen] at hBperm
  have hmem : ∀ i ∈ B, i < scores.length := fun i hi => List.mem_range.1 (hBperm.subset hi)
  -- the second ranking is by the sigmoid of the raw scores
  replace hB : B.Pairwise (Before fun k => sigmoid exp (scoreOf scores k)) := by
    refine hB.imp_of_mem fun {i j} hi hj hij => ?_
    rw [Before, scoreOf_map _ (hmem i hi), scoreOf_map _ (hmem j hj)] at hij
    exact hij
  have hcount (j : ℕ) : (A.countP fun k => Before (scoreOf scores) k j) = rankOf scores j :=
    hAperm.countP_eq _
  rw [hAeq, hBeq, Option.some_inj, eq_comm, truncate_eq_iff
    (hAperm.length_eq.trans List.length_range) (hBperm.length_eq.trans List.length_range),
    take_eq_take_iff (Before.irrefl _) (fun _ _ => Before.asymm) (fun _ _ => Before.asymm)
      hA hB (hAperm.trans hBperm.symm)]
  have hmemA {i : ℕ} (hi : i < scores.length) : i ∈ A := hAperm.symm.subset (List.mem_range.2 hi)
  constructor
  · intro hplaces
    refine .inr fun i j hij hj hlt hsat => ?_
    obtain ⟨hb, hb'⟩ := (before_and_before_iff (sigmoid_monotone hexp hpos)).2
      ⟨hij, hlt, (sigmoid_eq_iff hexp hpos hlt).2 hsat⟩
    have hle := hplaces i (hmemA (hij.trans hj)) j (hmemA hj) hb hb'
    rw [hcount] at hle
    cases topN with
    | none => exact absurd hle (not_le.2 (rankOf_lt hj))
    | some n => exact ⟨n, rfl, hle⟩
  · intro hsafe i hi j hj hb hb'
    obtain ⟨hij, hlt, heq⟩ :=
      (before_and_before_iff (sigmoid_monotone hexp hpos)).1 ⟨hb, hb'⟩
    obtain ⟨n, rfl, hle⟩ := hsafe.resolve_left hfew i j hij
      (List.mem_range.1 (hAperm.subset hj)) hlt ((sigmoid_eq_iff hexp hpos hlt).1 heq)
    rw [hcount]
    exact hle

end Ranking

/-- Of two documents with the scores `60` and `70`, the sigmoid puts the first one first. -/
theorem rankedIndices_sigmoid_saturated :
    rankedIndices (applyNormalize Real.exp [60, 70] .none) none none = some [1, 0] ∧
      rankedIndices (applyNormalize Real.exp [60, 70] .sigmoid) none none = some [0, 1] := by
  have hclamp : clamp (60 : ℝ) = clamp 70 := (clamp_eq_iff (by norm_num)).2
    (.inl (by norm_num [sigmoidClamp]))
  constructor
  · norm_num [rankedIndices, buildSortedResults, applyNormalize, resultOf, truncate,
      List.zipIdx_cons, List.insertionSort_cons, List.orderedInsert_cons]
  · simp [rankedIndices, buildSortedResults, applyNormalize, resultOf, truncate, sigmoid, hclamp,
      List.zipIdx_cons, List.insertionSort_cons, List.orderedInsert_cons]

theorem rankedIndices_sigmoid_iff_logits :
    rankedIndices (applyNormalize Real.exp [-3, 2, 70, 60] .sigmoid) (some 3) none =
        rankedIndices (applyNormalize Real.exp [-3, 2, 70, 60] .none) (some 3) none ↔
      TooFew none 4 ∨ SaturationSafe ([-3, 2, 70, 60] : List ℝ) (some 3) :=
  rankedIndices_sigmoid_iff Real.exp_strictMono Real.exp_pos _ _ _

end OxEmbed.Rerank

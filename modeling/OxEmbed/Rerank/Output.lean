import OxEmbed.Library.TotalCmp
import OxEmbed.Rerank.Results

/-!
# The order of the results

The scores of a request are `f32` numbers, and `build_sorted_results` sorts them by `total_cmp`, so
that NaN, the infinities and the two zeros have their places as well. This module says what the
results of any list of scores are: every document once, with its own score and its own text, the
largest score first and documents with the same score in their order; a limit cuts this list.

## Main definitions

* `Output` : the entries of a list of results, and their order.
* `echoDocs` : the texts that the handler echoes.

## Main results

* `Output.of_prefix` : the first entries of such a list are such a list.
* `buildSortedResults_eq_none_iff` : the call panics exactly when a text is missing.
* `buildSortedResults_output` : the results for every limit.
-/

namespace OxEmbed.Rerank

open Ranking Splice TotalCmp

/-- The entries belong to different documents, each carries the score and the text of its own
document, and they are in the order of the scores. -/
structure Output (scores : List F32) (documents : Option (List String))
    (results : List (RerankResult F32)) : Prop where
  distinct : (results.map RerankResult.index).Nodup
  inRange : ∀ r ∈ results, r.index < scores.length
  score : ∀ r ∈ results, scores[r.index]? = some r.relevanceScore
  text : ∀ r ∈ results, ∀ d, documents = some d →
    ∃ text, d[r.index]? = some text ∧ r.document = some text
  noText : documents = none → ∀ r ∈ results, r.document = none
  sorted : results.Pairwise fun a b =>
    b.relevanceScore < a.relevanceScore ∨
      a.relevanceScore = b.relevanceScore ∧ a.index < b.index

/-- The texts that a handler passes on. -/
def echoDocs (returnDocuments : Bool) (documents : List String) : Option (List String) :=
  if returnDocuments then some documents else none

section Output

variable {scores : List F32} {documents : Option (List String)}
  {results all : List (RerankResult F32)}

/-- **The first entries of a list of results are a list of results.** -/
theorem Output.of_prefix (hall : Output scores documents all) (h : results <+: all) :
    Output scores documents results where
  distinct := hall.distinct.sublist (h.sublist.map _)
  inRange r hr := hall.inRange r (h.subset hr)
  score r hr := hall.score r (h.subset hr)
  text r hr := hall.text r (h.subset hr)
  noText hnone r hr := hall.noText hnone r (h.subset hr)
  sorted := hall.sorted.sublist h.sublist

/-- An entry before the sort carries what belongs to its index. -/
theorem of_mem_echoed {r : RerankResult F32}
    (hr : r ∈ scores.zipIdx.map (echoed documents)) :
    scores[r.index]? = some r.relevanceScore ∧ r.document = documents.bind (·[r.index]?) := by
  obtain ⟨p, hp, rfl⟩ := List.mem_map.1 hr
  exact ⟨List.mem_zipIdx_iff_getElem?.1 hp, rfl⟩

variable (scores documents) in
/-- The results without a limit. -/
def sortedResults : List (RerankResult F32) :=
  (scores.zipIdx.map (echoed documents)).insertionSort
    fun a b => b.relevanceScore ≤ a.relevanceScore

theorem buildSortedResults_eq (h : ¬ TooFew documents scores.length) (topN : Option ℕ) :
    buildSortedResults scores topN documents =
      some (truncate topN (sortedResults scores documents)) := by
  rw [buildSortedResults, mapM_resultOf h]
  rfl

/-- **The call panics exactly when it is to echo a text that is not there.** -/
theorem buildSortedResults_eq_none_iff (topN : Option ℕ) :
    buildSortedResults scores topN documents = none ↔ TooFew documents scores.length := by
  constructor
  · intro hnone
    by_contra hfew
    rw [buildSortedResults_eq hfew] at hnone
    exact absurd hnone (Option.some_ne_none _)
  · rintro ⟨d, rfl, hlt⟩
    have hmem : (scores[d.length], d.length) ∈ scores.zipIdx :=
      List.mk_mem_zipIdx_iff_getElem?.2 (List.getElem?_eq_getElem hlt)
    have hpanic : resultOf (some d) (scores[d.length], d.length) = none := by simp [resultOf]
    rw [buildSortedResults, mapM_eq_none hmem hpanic]
    rfl

theorem perm_sortedResults :
    (sortedResults scores documents).Perm (scores.zipIdx.map (echoed documents)) :=
  List.perm_insertionSort _ _

/-- Every document has one entry. -/
theorem perm_map_index_sortedResults :
    ((sortedResults scores documents).map RerankResult.index).Perm (List.range scores.length) := by
  rw [← map_index_echoed scores documents]
  exact perm_sortedResults.map _

theorem length_sortedResults : (sortedResults scores documents).length = scores.length := by
  have hlen : ((sortedResults scores documents).map RerankResult.index).length = _ :=
    perm_map_index_sortedResults.length_eq
  rwa [List.length_map, List.length_range] at hlen

theorem output_sortedResults (h : ¬ TooFew documents scores.length) :
    Output scores documents (sortedResults scores documents) where
  distinct := perm_map_index_sortedResults.nodup_iff.2 List.nodup_range
  inRange r hr := List.mem_range.1
    (perm_map_index_sortedResults.subset (List.mem_map_of_mem hr))
  score r hr := (of_mem_echoed (perm_sortedResults.subset hr)).1
  text r hr d hd := by
    subst hd
    have hlt : r.index < d.length :=
      (List.mem_range.1 (perm_map_index_sortedResults.subset (List.mem_map_of_mem hr))).trans_le
        (not_lt.1 fun hlt => h ⟨d, rfl, hlt⟩)
    refine ⟨d[r.index], List.getElem?_eq_getElem hlt, ?_⟩
    rw [(of_mem_echoed (perm_sortedResults.subset hr)).2, Option.bind_some,
      List.getElem?_eq_getElem hlt]
  noText hnone r hr := by
    subst hnone
    exact (of_mem_echoed (perm_sortedResults.subset hr)).2
  sorted := by
    have hinc : (scores.zipIdx.map (echoed documents)).Pairwise fun a b => a.index < b.index := by
      rw [← List.pairwise_map, map_index_echoed]
      exact List.pairwise_lt_range
    exact pairwise_before_insertionSort _ _ _ hinc

/-- The handlers call with as many texts as scores, or with none. -/
theorem not_tooFew_echoDocs {texts : List String} (h : scores.length = texts.length)
    (returnDocuments : Bool) : ¬ TooFew (echoDocs returnDocuments texts) scores.length := by
  rintro ⟨d, hd, hlt⟩
  rw [echoDocs] at hd
  split at hd
  · cases hd
    omega
  · cases hd

end Output

/-- **The results of a request.** Unless a text to echo is missing, which is a panic, the results
without a limit are every document once with its own score and text, the largest score first and
equal scores in the order of the documents; the results with the limit `k` are the first `k` of
these, and the first entries of the results with any larger limit. -/
theorem buildSortedResults_output (scores : List F32) (documents : Option (List String)) :
    (TooFew documents scores.length ∧ ∀ topN, buildSortedResults scores topN documents = none) ∨
      ∃ all, buildSortedResults scores none documents = some all ∧
        Output scores documents all ∧ (∀ i < scores.length, i ∈ all.map RerankResult.index) ∧
        ∀ k, ∃ results, buildSortedResults scores (some k) documents = some results ∧
          Output scores documents results ∧ results = all.take k ∧
          results.length = min k scores.length ∧
          ∀ k', k ≤ k' → ∃ more, buildSortedResults scores (some k') documents = some more ∧
            results <+: more := by
  by_cases hfew : TooFew documents scores.length
  · exact .inl ⟨hfew, fun topN => (buildSortedResults_eq_none_iff topN).2 hfew⟩
  have hall := output_sortedResults hfew
  refine .inr ⟨sortedResults scores documents, buildSortedResults_eq hfew none, hall, ?_, ?_⟩
  · intro i hi
    exact perm_map_index_sortedResults.symm.subset (List.mem_range.2 hi)
  · intro k
    refine ⟨(sortedResults scores documents).take k, buildSortedResults_eq hfew (some k),
      hall.of_prefix (List.take_prefix _ _), rfl, ?_, ?_⟩
    · rw [List.length_take, length_sortedResults]
    · intro k' hk
      exact ⟨_, buildSortedResults_eq hfew (some k'), List.take_prefix_take_left hk⟩

/-- NaN, minus zero, zero, a number twice, minus infinity: the number of the entry is the place of
the document. -/
example : (buildSortedResults
      ([0x7fc00000, 0x80000000, 0, 0x3f800000, 0xff800000, 0x3f800000].map F32.mk) none none).map
    (·.map RerankResult.index) = some [0, 3, 5, 2, 1, 4] := by decide

end OxEmbed.Rerank

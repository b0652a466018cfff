import OxEmbed.Batcher.Budget
import OxEmbed.Embed.Subbatch

/-!
# The budget and the tensor

The batcher charges a batch of a padded model with its longest sequence, once for each text. The
model pads the batch to the next power of two of the longest sequence, or to its own maximum if that
is less. So the tensor that runs may have more cells than the budget, and more columns than the cap
on the sequence length, although the batch keeps to both.

## Main definitions

* `EmbedModel.inputs` : the tensors of a forward pass.
* `TensorWithin` : the tensor keeps to the budget and to the cap.
* `PaddingFits` : some width that the model may pad to keeps to them.

## Main results

* `width_iff` : what the width of a pass is below.
* `tensorWithin_iff_paddingFits` : exactly when the tensor of a batch keeps to the limits.
* `padded_budget_iff` : exactly when the tensors of the dispatched batches do.
-/

namespace OxEmbed.Batcher

open Pooling
open Embed (EmbedModel roundUpSeqLen)

variable {F V G D : Type}

/-! ### The tensor -/

/-- The inputs of the forward pass over a batch. -/
def inputs (M : EmbedModel G) (ts : List (List UInt32)) : Except Failure Embed.Inputs :=
  Embed.buildInputs ts.length (M.maxSeq ts)
    (buildTensorsFromIds ts ts.length (M.maxSeq ts) M.padId M.hasTokenTypeIds)

/-- The tensor has fewer cells than the token budget, and if the sequences keep to the cap on their
length, so do its rows. -/
def TensorWithin (cfg : BatcherConfig F) (M : EmbedModel G) (ts : List (List UInt32)) : Prop :=
  ∃ x, inputs M ts = .ok x ∧
    x.inputIds.rows * x.inputIds.cols < cfg.maxBatchTokens.toNat ∧
    (longest ts ≤ cfg.maxBatchSeq.toNat → x.inputIds.cols ≤ cfg.maxBatchSeq.toNat)

/-- A power of two that is no less than the longest sequence, or the maximum of the model, keeps to
the budget when it is multiplied with the number of texts; and one of them keeps to the cap. -/
structure PaddingFits (cfg : BatcherConfig F) (M : EmbedModel G) (ts : List (List UInt32)) :
    Prop where
  tokens : (∃ e, longest ts ≤ 2 ^ e ∧ ts.length * 2 ^ e < cfg.maxBatchTokens.toNat) ∨
    ts.length * max M.maxLen 1 < cfg.maxBatchTokens.toNat
  seq : longest ts ≤ cfg.maxBatchSeq.toNat →
    (∃ e, longest ts ≤ 2 ^ e ∧ 2 ^ e ≤ cfg.maxBatchSeq.toNat) ∨
      max M.maxLen 1 ≤ cfg.maxBatchSeq.toNat

/-- Without sub-batches, a call is one pass over all its texts. -/
theorem passes_eq (A : Arith G D) (M : EmbedModel G) {ts : List (List UInt32)} (hne : ts ≠ [])
    (hoff : (A.isNan M.subbatchRatio || A.le M.subbatchRatio A.one) = true) :
    M.passes A ts = [ts] := by
  have hgroups : (M.groups A ts).length ≤ 1 := by
    rw [EmbedModel.groups, Embed.planSubbatches, if_pos hoff]
    split <;> simp
  rw [EmbedModel.passes, if_neg hne, if_pos hgroups]

/-! ### The width -/

theorem foldl_max_eq_longest (ts : List (List UInt32)) (a : ℕ) :
    (ts.map List.length).foldl max a = max a (longest ts) := by
  induction ts generalizing a with
  | nil => exact (Nat.max_zero a).symm
  | cons t ts ih =>
    have hcons : longest (t :: ts) = max t.length (longest ts) := rfl
    rw [List.map_cons, List.foldl_cons, ih, hcons, Nat.max_assoc]

/-- The width is the maximum of the model, or a power of two no less than the longest sequence. -/
theorem roundUpSeqLen_min_cases (n cap : ℕ) :
    roundUpSeqLen (min n cap) cap = max cap 1 ∨
      ∃ e, n ≤ 2 ^ e ∧ roundUpSeqLen (min n cap) cap = 2 ^ e := by
  rw [roundUpSeqLen]
  split
  next hone =>
    by_cases hn : n ≤ 1
    · exact .inr ⟨0, hn, rfl⟩
    · exact .inl (by omega)
  next hmany =>
    rcases le_total cap (2 ^ Nat.clog 2 (min n cap)) with hle | hle
    · rw [min_eq_right hle]
      exact .inl (by omega)
    · rw [min_eq_left hle]
      have hpow : min n cap ≤ 2 ^ Nat.clog 2 (min n cap) := Nat.le_pow_clog (by decide) _
      rcases hle.lt_or_eq with hlt | heq
      · exact .inr ⟨_, by omega, rfl⟩
      · rw [heq]
        exact .inl (by omega)

theorem roundUpSeqLen_min_le_pow {n cap e : ℕ} (h : n ≤ 2 ^ e) :
    roundUpSeqLen (min n cap) cap ≤ 2 ^ e := by
  rw [roundUpSeqLen]
  split
  · exact Nat.one_le_two_pow
  · have hclog : Nat.clog 2 (min n cap) ≤ e :=
      Nat.clog_le_of_le_pow ((Nat.min_le_left n cap).trans h)
    exact (Nat.min_le_left _ _).trans (Nat.pow_le_pow_right (by decide) hclog)

theorem roundUpSeqLen_min_le_max (n cap : ℕ) : roundUpSeqLen (min n cap) cap ≤ max cap 1 := by
  rw [roundUpSeqLen]
  split
  · exact Nat.le_max_right _ _
  · exact (Nat.min_le_right _ _).trans (Nat.le_max_left _ _)

theorem maxSeq_eq (M : EmbedModel G) (ts : List (List UInt32)) :
    M.maxSeq ts = roundUpSeqLen (min (longest ts) M.maxLen) M.maxLen := by
  rw [EmbedModel.maxSeq, foldl_max_eq_longest, Nat.zero_max]

/-- **The width of a pass is below a bound when a width that the model may pad to is.** -/
theorem width_iff (M : EmbedModel G) (ts : List (List UInt32)) {P : ℕ → Prop}
    (hP : ∀ a b, a ≤ b → P b → P a) :
    P (M.maxSeq ts) ↔ (∃ e, longest ts ≤ 2 ^ e ∧ P (2 ^ e)) ∨ P (max M.maxLen 1) := by
  rw [maxSeq_eq]
  constructor
  · intro h
    rcases roundUpSeqLen_min_cases (longest ts) M.maxLen with heq | ⟨e, he, heq⟩
    · exact .inr (heq ▸ h)
    · exact .inl ⟨e, he, heq ▸ h⟩
  · rintro (⟨e, he, h⟩ | h)
    · exact hP _ _ (roundUpSeqLen_min_le_pow he) h
    · exact hP _ _ (roundUpSeqLen_min_le_max _ _) h

variable {M : EmbedModel G} {ts : List (List UInt32)}

/-- The tensor has a row for each text and the width of the pass. -/
theorem tensorWithin_iff {cfg : BatcherConfig F} :
    TensorWithin cfg M ts ↔ ts.length * M.maxSeq ts < cfg.maxBatchTokens.toNat ∧
      (longest ts ≤ cfg.maxBatchSeq.toNat → M.maxSeq ts ≤ cfg.maxBatchSeq.toNat) := by
  obtain ⟨x, hx, hrows, hcols, -⟩ :=
    Embed.buildInputs_eq ts (M.maxSeq ts) M.padId M.hasTokenTypeIds
  constructor
  · rintro ⟨x', hx', htokens, hseq⟩
    obtain rfl := Except.ok.inj (hx.symm.trans hx')
    rw [hrows, hcols] at htokens
    rw [hcols] at hseq
    exact ⟨htokens, hseq⟩
  · rintro ⟨htokens, hseq⟩
    exact ⟨x, hx, by rwa [hrows, hcols], by rwa [hcols]⟩

/-- **The tensor keeps to the limits when a width that the model may pad to does.** -/
theorem tensorWithin_iff_paddingFits {cfg : BatcherConfig F} :
    TensorWithin cfg M ts ↔ PaddingFits cfg M ts := by
  have htokens := width_iff M ts (P := fun w => ts.length * w < cfg.maxBatchTokens.toNat)
    fun a b hab hb => (Nat.mul_le_mul_left _ hab).trans_lt hb
  have hseq := width_iff M ts (P := fun w => w ≤ cfg.maxBatchSeq.toNat)
    fun a b hab hb => hab.trans hb
  rw [tensorWithin_iff, htokens]
  constructor
  · rintro ⟨h, h'⟩
    exact ⟨h, fun hle => hseq.1 (h' hle)⟩
  · rintro ⟨h, h'⟩
    exact ⟨h, fun hle => hseq.2 (h' hle)⟩

/-! ### Dispatched batches -/

theorem texts_ne_nil {batch : List Item} (h : batch ≠ []) : texts batch ≠ [] := by
  obtain ⟨item, rest, rfl⟩ := List.exists_cons_of_ne_nil h
  rw [texts, List.flatMap_cons]
  exact List.append_ne_nil_of_left_ne_nil item.tokenIds_ne _

/-- Padding adds nothing to sequences whose longest is a power of two, or no shorter than the
maximum of the model. -/
theorem paddingFits_of_withinLimits {cfg : BatcherConfig F} {batch : List Item}
    (hpad : cfg.paddedModel = true) (h : WithinLimits cfg batch)
    (hwidth : (∃ e, longest (texts batch) = 2 ^ e) ∨ max M.maxLen 1 ≤ longest (texts batch)) :
    PaddingFits cfg M (texts batch) := by
  have hcost := h.tokens
  rw [cost, if_pos hpad, Nat.mul_comm] at hcost
  rcases hwidth with ⟨e, he⟩ | hmax
  · exact ⟨.inl ⟨e, he.le, he ▸ hcost⟩, fun hseq => .inl ⟨e, he.le, he ▸ hseq⟩⟩
  · exact ⟨.inr ((Nat.mul_le_mul_left _ hmax).trans_lt hcost), fun hseq => .inr (hmax.trans hseq)⟩

variable [RatioArith F] {s : State V}

/-- **The tensor of a dispatched batch.** With sub-batches off, the tensor of a batch that the
batcher of a padded model has dispatched keeps to its limits exactly when a width that the model may
pad to keeps to them. It does if the longest sequence is a power of two, or no shorter than the
maximum of the model. -/
theorem padded_budget_iff (A : Arith G D) (cfg : BatcherConfig F) (M : EmbedModel G)
    (hoff : (A.isNan M.subbatchRatio || A.le M.subbatchRatio A.one) = true)
    (hpad : cfg.paddedModel = true) (hs : (machine V cfg).Reachable (fun _ _ => True) s) :
    ∀ kept ∈ s.dispatched, 2 ≤ kept.length →
      ((∀ ts ∈ M.passes A (texts kept), TensorWithin cfg M ts) ↔
        PaddingFits cfg M (texts kept)) ∧
      ((∃ e, longest (texts kept) = 2 ^ e) ∨ max M.maxLen 1 ≤ longest (texts kept) →
        ∀ ts ∈ M.passes A (texts kept), TensorWithin cfg M ts) := by
  intro kept hkept htwo
  obtain ⟨hne, -⟩ := dispatched_sublist hs kept hkept
  obtain ⟨hbudget, -⟩ := budget_of_reachable cfg hs
  have hiff : (∀ ts ∈ M.passes A (texts kept), TensorWithin cfg M ts) ↔
      PaddingFits cfg M (texts kept) := by
    rw [passes_eq A M (texts_ne_nil hne) hoff, List.forall_mem_singleton]
    exact tensorWithin_iff_paddingFits
  refine ⟨hiff, fun hwidth => hiff.2 ?_⟩
  exact paddingFits_of_withinLimits hpad (hbudget.dispatched kept hkept htwo) hwidth

/-- A batcher for a padded model whose limits are no powers of two. -/
def sixConfig : BatcherConfig ℚ :=
  { pairConfig with maxBatchTokens := 12, maxBatchSeq := 6 }

/-- A model for up to 512 tokens, with sub-batches off. -/
def bertModel : EmbedModel ℚ := ⟨512, 0, true, 384, 1⟩

/-- Two requests of five tokens. -/
def fives : List Item :=
  [⟨0, [[1, 2, 3, 4, 5]], by decide⟩, ⟨1, [[6, 7, 8, 9, 10]], by decide⟩]

/-- Two requests of four tokens. -/
def fours : List Item :=
  [⟨2, [[1, 2, 3, 4]], by decide⟩, ⟨3, [[5, 6, 7, 8]], by decide⟩]

theorem dispatched_fives_fours :
    ∃ s, (machine ℕ sixConfig).Reachable (fun _ _ => True) s ∧ s.dispatched = [fives, fours] := by
  obtain ⟨s, hs, hd⟩ :
      ∃ s ∈ (machine ℕ sixConfig).runUnder (fun _ _ => True) start
        ((fives ++ fours).map (fun item => .submit item.tokenIds) ++ fives.map .trySend ++
          [.worker, .worker, .worker, .worker, .worker, .worker, .embedDone (.ok [10, 20])] ++
          fours.map .trySend ++ List.replicate 9 .worker),
        s.dispatched = [fives, fours] := by
    decide +kernel
  exact ⟨s, .of_runUnder ⟨by decide, rfl⟩ hs, hd⟩

/-- The longest sequences of the second batch are powers of two, and its tensor keeps to the
limits. -/
theorem padded_budget_iff_fours :
    ∃ s, (machine ℕ sixConfig).Reachable (fun _ _ => True) s ∧ fours ∈ s.dispatched ∧
      ∀ ts ∈ bertModel.passes exactArith (texts fours), TensorWithin sixConfig bertModel ts := by
  obtain ⟨s, hs, hd⟩ := dispatched_fives_fours
  have hmem : fours ∈ s.dispatched := hd ▸ List.mem_cons_of_mem _ List.mem_cons_self
  refine ⟨s, hs, hmem, ?_⟩
  have h := padded_budget_iff exactArith sixConfig bertModel (by decide) rfl hs fours hmem
    (by decide)
  exact h.2 (.inl ⟨2, rfl⟩)

/-- The first batch is charged ten tokens, and its tensor has sixteen in rows of eight. -/
theorem padded_budget_exceeded :
    ∃ s, (machine ℕ sixConfig).Reachable (fun _ _ => True) s ∧ sixConfig.paddedModel = true ∧
      fives ∈ s.dispatched ∧ 2 ≤ fives.length ∧
      longest (texts fives) ≤ sixConfig.maxBatchSeq.toNat ∧
      bertModel.passes exactArith (texts fives) = [texts fives] ∧
      (∃ x, inputs bertModel (texts fives) = .ok x ∧ x.inputIds.rows = 2 ∧ x.inputIds.cols = 8) ∧
      ¬ TensorWithin sixConfig bertModel (texts fives) := by
  obtain ⟨s, hs, hd⟩ := dispatched_fives_fours
  have hwidth : bertModel.maxSeq (texts fives) = 8 := by decide +kernel
  obtain ⟨x, hx, hrows, hcols, -⟩ :=
    Embed.buildInputs_eq (texts fives) (bertModel.maxSeq (texts fives)) bertModel.padId
      bertModel.hasTokenTypeIds
  refine ⟨s, hs, rfl, hd ▸ List.mem_cons_self, by decide, by decide, ?_, ?_, ?_⟩
  · exact passes_eq exactArith bertModel (by decide) (by decide)
  · exact ⟨x, hx, hrows, hcols.trans hwidth⟩
  · intro h
    have hcells := (tensorWithin_iff.1 h).1
    rw [hwidth] at hcells
    exact absurd hcells (by decide)

end OxEmbed.Batcher

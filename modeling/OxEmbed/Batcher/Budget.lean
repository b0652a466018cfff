import Mathlib.Algebra.Order.BigOperators.Group.List
import Mathlib.Data.List.Flatten
import OxEmbed.Batcher.Order

/-!
# The budget of a batch

The first item of a batch is admitted whatever its size, and every later one passed the gates
against the running aggregate of those before it. So a batch of two or more items keeps to the cap
on texts, to the cap on the sequence length, and strictly below the token budget; the batch that is
dispatched, with cancelled items filtered out, keeps to them as well.

The length-ratio gate compares floating-point numbers. The bound it gives is stated for an
arithmetic that is exact under some reading of its values in an ordered semiring.

## Main definitions

* `cost`, `WithinLimits` : the cost of a batch, and the limits of a configuration.
* `Admissible` : the batches that the gates let through.
* `Budget`, `RatioRespected` : the limits and the length ratio, for every batch of a state.

## Main results

* `admissible_of_reachable` : every batch begun went through the gates.
* `budget_of_reachable` : every batch keeps to the limits and to the length ratio.
-/

namespace OxEmbed.Batcher

open Text (usizeMax)

variable {F V : Type}

/-! ### Sizes of batches -/

/-- The cost of a batch: every sequence of a padded model is padded to the longest one. -/
def cost (cfg : BatcherConfig F) (batch : List Item) : ℕ :=
  if cfg.paddedModel then longest (texts batch) * (texts batch).length
  else tokenCount (texts batch)

/-- The batch keeps to the limits of the configuration. -/
structure WithinLimits (cfg : BatcherConfig F) (batch : List Item) : Prop where
  items : (texts batch).length ≤ cfg.maxBatchItems.toNat
  seq : longest (texts batch) ≤ cfg.maxBatchSeq.toNat
  tokens : cost cfg batch < cfg.maxBatchTokens.toNat

/-- The aggregate over the items of a batch. -/
def BatchAccum.ofBatch (batch : List Item) : BatchAccum :=
  ⟨(texts batch).length, longest (texts batch), tokenCount (texts batch)⟩

theorem longest_append (l₁ l₂ : List (List UInt32)) :
    longest (l₁ ++ l₂) = max (longest l₁) (longest l₂) := by
  induction l₁ with
  | nil => exact (Nat.zero_max _).symm
  | cons t l₁ ih =>
    have hcons : longest (t :: (l₁ ++ l₂)) = max t.length (longest (l₁ ++ l₂)) := rfl
    rw [List.cons_append, hcons, ih, ← Nat.max_assoc]
    rfl

theorem tokenCount_append (l₁ l₂ : List (List UInt32)) :
    tokenCount (l₁ ++ l₂) = tokenCount l₁ + tokenCount l₂ := by
  rw [tokenCount, List.map_append, List.sum_append]
  rfl

theorem texts_append_singleton (batch : List Item) (item : Item) :
    texts (batch ++ [item]) = texts batch ++ item.tokenIds := by
  simp [texts]

theorem longest_mono {l₁ l₂ : List (List UInt32)} (h : l₁.Sublist l₂) :
    longest l₁ ≤ longest l₂ := by
  induction h with
  | slnil => exact Nat.le_refl _
  | cons t _ ih => exact Nat.le_trans ih (Nat.le_max_right t.length _)
  | cons_cons t _ ih => exact max_le_max (Nat.le_refl t.length) ih

theorem tokenCount_mono {l₁ l₂ : List (List UInt32)} (h : l₁.Sublist l₂) :
    tokenCount l₁ ≤ tokenCount l₂ :=
  (h.map List.length).sum_le_sum fun _ _ => Nat.zero_le _

theorem texts_mono {b₁ b₂ : List Item} (h : b₁.Sublist b₂) : (texts b₁).Sublist (texts b₂) :=
  h.flatMap _

namespace BatchAccum

theorem fits_iff (cfg : BatcherConfig F) (accum : BatchAccum) (item : Item) :
    accum.fits cfg item = true ↔ (accum.push item).items ≤ cfg.maxBatchItems.toNat ∧
      (if cfg.paddedModel then saturatingMul (accum.push item).maxLen (accum.push item).items
        else (accum.push item).totalTokens) < cfg.maxBatchTokens.toNat := by
  by_cases hcap : accum.items + item.nTexts > cfg.maxBatchItems.toNat
  · simp [fits, push, hcap]
  · simp [fits, push, hcap, Nat.not_lt.mp hcap]

theorem empty_push (item : Item) : empty.push item = ofBatch [item] := by
  simp [push, empty, ofBatch, texts, Item.nTexts, Item.maxSeqLen, Item.totalTokens]

theorem ofBatch_push (batch : List Item) (item : Item) :
    (ofBatch batch).push item = ofBatch (batch ++ [item]) := by
  simp only [push, ofBatch, texts_append_singleton, longest_append, tokenCount_append,
    List.length_append]
  rfl

theorem ofBatch_items_pos {batch : List Item} (h : batch ≠ []) : 0 < (ofBatch batch).items := by
  obtain ⟨item, rest, rfl⟩ := List.exists_cons_of_ne_nil h
  have hitem := List.length_pos_iff.mpr item.tokenIds_ne
  simp only [ofBatch, texts, List.flatMap_cons, List.length_append]
  omega

end BatchAccum

/-- A smaller batch keeps to the limits as well. -/
theorem WithinLimits.mono {cfg : BatcherConfig F} {b₁ b₂ : List Item} (h : WithinLimits cfg b₂)
    (hsub : b₁.Sublist b₂) : WithinLimits cfg b₁ := by
  have hlength := (texts_mono hsub).length_le
  have hlongest := longest_mono (texts_mono hsub)
  have hcost : cost cfg b₁ ≤ cost cfg b₂ := by
    rw [cost, cost]
    split
    · exact Nat.mul_le_mul hlongest hlength
    · exact tokenCount_mono (texts_mono hsub)
  exact ⟨hlength.trans h.items, hlongest.trans h.seq, hcost.trans_lt h.tokens⟩

/-! ### What the gates let through -/

/-- A saturating product below the token budget is the exact product. -/
theorem mul_lt_of_saturatingMul_lt {a b : ℕ} {m : UInt64} (h : saturatingMul a b < m.toNat) :
    a * b < m.toNat := by
  have hm : m.toNat < 2 ^ 64 := m.toNat_lt
  rw [saturatingMul, usizeMax] at h
  omega

variable [RatioArith F] {cfg : BatcherConfig F}

/-- The batches that the gates let through, one item after the other. -/
inductive Admissible (cfg : BatcherConfig F) : List Item → Prop
  | first (item : Item) : Admissible cfg [item]
  | next {batch : List Item} {item : Item} (h : Admissible cfg batch)
      (ho : (BatchAccum.ofBatch batch).overflows cfg item = false) :
      Admissible cfg (batch ++ [item])

theorem Admissible.ne_nil {batch : List Item} (h : Admissible cfg batch) : batch ≠ [] := by
  cases h with
  | first => exact List.cons_ne_nil _ _
  | next => exact List.append_ne_nil_of_right_ne_nil _ (List.cons_ne_nil _ _)

/-- An item that passes the gates leaves the batch within the limits. -/
theorem withinLimits_of_not_overflows {batch : List Item} {item : Item} (hne : batch ≠ [])
    (ho : (BatchAccum.ofBatch batch).overflows cfg item = false) :
    WithinLimits cfg (batch ++ [item]) := by
  simp only [BatchAccum.overflows, Bool.or_eq_false_iff, Bool.not_eq_false'] at ho
  obtain ⟨⟨hseq, -⟩, hfits⟩ := ho
  have hitems := BatchAccum.ofBatch_items_pos hne
  obtain ⟨hcap, hbudget⟩ := (BatchAccum.fits_iff cfg _ _).mp hfits
  have hmax : ((BatchAccum.ofBatch batch).push item).maxLen ≤ cfg.maxBatchSeq.toNat := by
    rw [decide_eq_true hitems, Bool.true_and] at hseq
    exact Nat.not_lt.mp (of_decide_eq_false hseq)
  rw [BatchAccum.ofBatch_push] at hcap hbudget hmax
  refine ⟨hcap, hmax, ?_⟩
  rw [cost]
  split
  · rw [if_pos ‹_›] at hbudget
    exact mul_lt_of_saturatingMul_lt hbudget
  · rwa [if_neg ‹_›] at hbudget

/-- **Budget.** A batch of two or more items that went through the gates keeps to the limits. -/
theorem Admissible.withinLimits {batch : List Item} (h : Admissible cfg batch)
    (htwo : 2 ≤ batch.length) : WithinLimits cfg batch := by
  cases h with
  | first => exact absurd htwo (by simp)
  | next h ho => exact withinLimits_of_not_overflows h.ne_nil ho

/-! ### The length ratio -/

/-- The arithmetic is exact when its values are read in an ordered semiring. -/
structure RatioArith.Exact {K : Type} [CommSemiring K] [LinearOrder K] (val : F → K) : Prop where
  zero : val RatioArith.zero = 0
  ofUsize : ∀ n, val (RatioArith.ofUsize n) = n
  mul : ∀ a b, val (RatioArith.mul a b) = val a * val b
  gt : ∀ a b, RatioArith.gt a b = true ↔ val b < val a

theorem RatioArith.exact_id {K : Type} [CommSemiring K] [LinearOrder K] :
    RatioArith.Exact (id : K → K) :=
  ⟨rfl, fun _ => rfl, fun _ _ => rfl, fun _ _ => decide_eq_true_iff⟩

variable {K : Type} [CommSemiring K] [LinearOrder K] {val : F → K}

/-- An item that passes the length-ratio gate is at most the ratio longer than the batch. -/
theorem maxSeqLen_le_of_not_overflow (hval : RatioArith.Exact val) {batch : List Item}
    {item : Item} (hne : batch ≠ []) (hpad : cfg.paddedModel = true)
    (hr : 0 < val cfg.lengthRatioThreshold) (hpos : 0 < longest (texts batch))
    (ho : (BatchAccum.ofBatch batch).overflows cfg item = false) :
    (item.maxSeqLen : K) ≤ val cfg.lengthRatioThreshold * longest (texts batch) := by
  simp only [BatchAccum.overflows, Bool.or_eq_false_iff] at ho
  have hgate := ho.1.2
  have hthreshold : RatioArith.gt cfg.lengthRatioThreshold RatioArith.zero = true := by
    rw [hval.gt, hval.zero]
    exact hr
  have hitems := BatchAccum.ofBatch_items_pos hne
  have hlen : 0 < (BatchAccum.ofBatch batch).maxLen := hpos
  simp only [BatchAccum.lengthRatioOverflow, hpad, hthreshold, decide_eq_true hitems,
    decide_eq_true hlen, Bool.true_and] at hgate
  have hle := mt (hval.gt _ _).mpr (Bool.eq_false_iff.mp hgate)
  rw [hval.mul, hval.ofUsize, hval.ofUsize, mul_comm] at hle
  exact not_lt.mp hle

/-- **Length ratio.** Every item admitted after others is at most the ratio longer than the
longest sequence before it. -/
theorem Admissible.ratio {batch : List Item} (h : Admissible cfg batch)
    (hval : RatioArith.Exact val) (hpad : cfg.paddedModel = true)
    (hr : 0 < val cfg.lengthRatioThreshold) {before after : List Item} {item : Item}
    (hb : batch = before ++ item :: after) (hpos : 0 < longest (texts before)) :
    (item.maxSeqLen : K) ≤ val cfg.lengthRatioThreshold * longest (texts before) := by
  have hne : before ≠ [] := by
    rintro rfl
    exact Nat.lt_irrefl 0 hpos
  induction h generalizing after with
  | first =>
    have hlength := congrArg List.length hb
    have := List.length_pos_iff.mpr hne
    simp only [List.length_append, List.length_cons, List.length_nil] at hlength
    omega
  | @next batch last h ho ih =>
    rcases List.eq_nil_or_concat after with rfl | ⟨after, x, rfl⟩
    · obtain ⟨rfl, hlast⟩ := List.append_inj' hb rfl
      obtain rfl : last = item := by simpa using hlast
      exact maxSeqLen_le_of_not_overflow hval hne hpad hr hpos ho
    · rw [List.concat_eq_append, ← List.cons_append, ← List.append_assoc] at hb
      exact ih (List.append_inj' hb rfl).1

/-! ### Every batch of a run -/

variable {s s' : State V} {a : Action V} {C : State V → Action V → Prop}

/-- The accumulator of the fill loop is the aggregate over the batch. -/
theorem accum_eq_ofBatch (hs : (machine V cfg).Reachable C s) {accum : BatchAccum}
    {batch : List Item} (hp : s.phase = .fill accum batch) : accum = .ofBatch batch := by
  refine hs.invariant
    (P := fun s => ∀ accum batch, s.phase = .fill accum batch → accum = .ofBatch batch) ?_ ?_ _ _ hp
  · rintro _ ⟨-, rfl⟩ accum batch h
    cases h
  · rintro s a s' h - hstep accum batch hp'
    cases trans_of_step hstep with
    | takeCarry | takeFirst =>
      cases hp'
      exact BatchAccum.empty_push _
    | join hp =>
      cases hp'
      rw [h _ _ hp, BatchAccum.ofBatch_push]
    | skip hp => exact h _ _ hp'
    | embedDone => exact absurd hp' (afterEmbed_ne nofun nofun)
    | submitEmpty | submitFull | submitChecked | sendFull | enqueue | cancel | close =>
      exact h _ _ hp'
    | _ => cases hp'

/-- **Run lemma.** Every batch begun went through the gates, one item after the other. -/
theorem admissible_of_reachable (hs : (machine V cfg).Reachable C s) :
    ∀ batch ∈ s.batches, Admissible cfg batch := by
  refine hs.invariant_of_reachable (P := fun s => ∀ batch ∈ s.batches, Admissible cfg batch) ?_ ?_
  · rintro _ ⟨-, rfl⟩ batch hb
    cases hb
  · rintro s a s' hr h - hstep batch hb'
    cases batchStep_of_step hstep with
    | same hb | defer _ _ _ _ _ hb => exact h batch (hb ▸ hb')
    | begin first hb =>
      rw [hb, List.mem_append, List.mem_singleton] at hb'
      rcases hb' with hb' | rfl
      · exact h batch hb'
      · exact .first first
    | join accum old item hp _ _ ho hb =>
      have hold := batches_of_fill hp ▸ h
      rw [hb, List.mem_append, List.mem_singleton] at hb'
      rcases hb' with hb' | rfl
      · exact hold batch (List.mem_append_left _ hb')
      · rw [accum_eq_ofBatch hr hp] at ho
        exact .next (hold old (List.mem_append_right _ (List.mem_singleton_self _))) ho

/-- The items that `retain` has kept or not looked at yet are items of the last batch formed. -/
theorem retain_sublist (hs : (machine V cfg).Reachable C s) {kept todo : List Item}
    (hp : s.phase = .retain kept todo) : ∃ batch ∈ s.formed, (kept ++ todo).Sublist batch := by
  refine hs.invariant (P := fun s => ∀ kept todo, s.phase = .retain kept todo →
    ∃ batch ∈ s.formed, (kept ++ todo).Sublist batch) ?_ ?_ _ _ hp
  · rintro _ ⟨-, rfl⟩ kept todo h
    cases h
  · rintro s a s' h - hstep kept todo hp'
    cases trans_of_step hstep with
    | saturate | drained | defer | deadline =>
      cases hp'
      exact ⟨_, List.mem_append_right _ (List.mem_singleton_self _), List.Sublist.refl _⟩
    | drop hp =>
      cases hp'
      obtain ⟨batch, hb, hsub⟩ := h _ _ hp
      exact ⟨batch, hb, ((List.Sublist.refl _).append (List.sublist_cons_self _ _)).trans hsub⟩
    | keep hp =>
      cases hp'
      obtain ⟨batch, hb, hsub⟩ := h _ _ hp
      exact ⟨batch, hb, by rwa [List.append_assoc]⟩
    | skip hp => exact h _ _ hp'
    | embedDone => exact absurd hp' (afterEmbed_ne nofun nofun)
    | submitEmpty | submitFull | submitChecked | sendFull | enqueue | cancel | close =>
      exact h _ _ hp'
    | _ => cases hp'

/-- A dispatched batch is a batch formed, without some cancelled items, and it is not empty. -/
theorem dispatched_sublist (hs : (machine V cfg).Reachable C s) :
    ∀ kept ∈ s.dispatched, kept ≠ [] ∧ ∃ batch ∈ s.formed, kept.Sublist batch := by
  refine hs.invariant_of_reachable
    (P := fun s => ∀ kept ∈ s.dispatched, kept ≠ [] ∧ ∃ batch ∈ s.formed, kept.Sublist batch) ?_ ?_
  · rintro _ ⟨-, rfl⟩ kept hk
    cases hk
  · rintro s a s' hr h - hstep kept hk
    have hformed {b : List Item} (hk : kept ∈ s.dispatched) :
        kept ≠ [] ∧ ∃ batch ∈ s.formed ++ [b], kept.Sublist batch := by
      obtain ⟨hne, batch, hb, hsub⟩ := h kept hk
      exact ⟨hne, batch, List.mem_append_left _ hb, hsub⟩
    cases trans_of_step hstep with
    | saturate | drained | defer | deadline => exact hformed hk
    | dispatch hp hne =>
      rcases List.mem_append.mp hk with hk | hk
      · exact h kept hk
      · rw [List.mem_singleton.mp hk]
        obtain ⟨batch, hb, hsub⟩ := retain_sublist hr hp
        exact ⟨hne, batch, hb, by rwa [List.append_nil] at hsub⟩
    | _ => exact h kept hk

/-! ### The budget -/

/-- Every batch of two or more items keeps to the limits, as it was formed and as it is
dispatched. -/
structure Budget (cfg : BatcherConfig F) (s : State V) : Prop where
  formed : ∀ batch ∈ s.formed, 2 ≤ batch.length → WithinLimits cfg batch
  dispatched : ∀ kept ∈ s.dispatched, 2 ≤ kept.length → WithinLimits cfg kept
  /-- What is dispatched is what was formed, without some cancelled items. -/
  filtered : ∀ kept ∈ s.dispatched, ∃ batch ∈ s.formed, kept.Sublist batch
  /-- A batch that breaks a limit has one item. -/
  single : ∀ kept ∈ s.dispatched, ¬ WithinLimits cfg kept → kept.length = 1

/-- Every item admitted after the first is at most the ratio longer than the longest sequence
admitted before it. -/
def RatioRespected (cfg : BatcherConfig F) (val : F → K) (s : State V) : Prop :=
  cfg.paddedModel = true → 0 < val cfg.lengthRatioThreshold →
    ∀ batch ∈ s.formed, ∀ before item after, batch = before ++ item :: after →
      0 < longest (texts before) →
        (item.maxSeqLen : K) ≤ val cfg.lengthRatioThreshold * longest (texts before)

/-- **Budget.** Under every configuration and on every schedule, every batch of two or more items
keeps to the limits, also after cancelled items are filtered out, and in exact arithmetic every
item admitted after the first respects the length ratio. -/
theorem budget_of_reachable (cfg : BatcherConfig F)
    (hs : (machine V cfg).Reachable (fun _ _ => True) s) :
    Budget cfg s ∧ ∀ (K : Type) [CommSemiring K] [LinearOrder K] (val : F → K),
      RatioArith.Exact val → RatioRespected cfg val s := by
  have hadmissible : ∀ batch ∈ s.formed, Admissible cfg batch := fun batch hb =>
    admissible_of_reachable hs batch (List.mem_append_left _ hb)
  have hdispatched : ∀ kept ∈ s.dispatched, 2 ≤ kept.length → WithinLimits cfg kept := by
    intro kept hk htwo
    obtain ⟨-, batch, hb, hsub⟩ := dispatched_sublist hs kept hk
    exact ((hadmissible batch hb).withinLimits (htwo.trans hsub.length_le)).mono hsub
  refine ⟨⟨?_, hdispatched, ?_, ?_⟩, ?_⟩
  · exact fun batch hb => (hadmissible batch hb).withinLimits
  · exact fun kept hk => (dispatched_sublist hs kept hk).2
  · intro kept hk hbreak
    have hne := List.length_pos_iff.mpr (dispatched_sublist hs kept hk).1
    have hsmall := mt (hdispatched kept hk) hbreak
    omega
  · intro K _ _ val hval hpad hr batch hb before item after hsplit hpos
    exact (hadmissible batch hb).ratio hval hpad hr hsplit hpos

/-- A batcher for a padded model with the length ratio `3 / 2`. -/
def ratioConfig : BatcherConfig ℚ :=
  { pairConfig with maxBatchItems := 4, lengthRatioThreshold := 3 / 2 }

/-- Two requests form a batch, and a third one more than the ratio longer is deferred. -/
theorem budget_lengthRatio :
    ∃ s, (machine ℕ ratioConfig).Reachable (fun _ _ => True) s ∧
      s.dispatched.map (·.map Item.reply) = [[0, 1]] ∧
      s.deferred.map (fun p => (p.1.reply, p.2)) = [(2, 0)] ∧
      Budget ratioConfig s ∧ RatioRespected ratioConfig id s := by
  obtain ⟨s, hs, hd, hf⟩ :
      ∃ s ∈ (machine ℕ ratioConfig).runUnder (fun _ _ => True) start
        [.submit [[1, 2, 3, 4]], .submit [[5, 6]], .submit [[1, 2, 3, 4, 5, 6, 7]],
          .trySend ⟨0, [[1, 2, 3, 4]], by decide⟩, .trySend ⟨1, [[5, 6]], by decide⟩,
          .trySend ⟨2, [[1, 2, 3, 4, 5, 6, 7]], by decide⟩,
          .worker, .worker, .worker, .worker, .worker, .worker],
        s.dispatched.map (·.map Item.reply) = [[0, 1]] ∧
          s.deferred.map (fun p => (p.1.reply, p.2)) = [(2, 0)] := by
    decide +kernel
  have hreach : (machine ℕ ratioConfig).Reachable (fun _ _ => True) s :=
    .of_runUnder ⟨by decide, rfl⟩ hs
  obtain ⟨hbudget, hratio⟩ := budget_of_reachable ratioConfig hreach
  exact ⟨s, hreach, hd, hf, hbudget, hratio ℚ id RatioArith.exact_id⟩

end OxEmbed.Batcher

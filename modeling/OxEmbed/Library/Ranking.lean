import Mathlib.Data.List.Sort
import Mathlib.Data.List.Perm.Basic
import Mathlib.Order.Monotone.Defs

/-!
# Rankings

A list of items is ranked by a key, the largest first, and items with the same key keep their
order. When two keys rank the same items, the first `n` places of the two rankings agree unless
one of the items that the one key puts there is behind another one for the other key.

## Main definitions

* `Before` : the order of the places, by the key and then by the item.

## Main results

* `pairwise_before_insertionSort` : a stable sort by the key puts the items in this order.
* `take_eq_take_iff` : when two orders give the same first places.
* `before_and_before_iff` : for which items two keys, one monotone in the other, disagree.
-/

namespace OxEmbed.Ranking

/-! ### Orders on places -/

section Order

variable {ι K K' : Type*} [LinearOrder ι] [LinearOrder K] [LinearOrder K'] {key : ι → K} {i j k : ι}

/-- The item `i` has a larger key than `j`, or the same and is the smaller of the two. -/
def Before (key : ι → K) (i j : ι) : Prop := key j < key i ∨ key i = key j ∧ i < j

instance (key : ι → K) : DecidableRel (Before key) := fun _ _ => instDecidableOr

theorem Before.irrefl (key : ι → K) (i : ι) : ¬ Before key i i := by
  rintro (h | ⟨-, h⟩) <;> exact lt_irrefl _ h

theorem Before.trans (hij : Before key i j) (hjk : Before key j k) : Before key i k := by
  rcases hij with hij | ⟨heq, hij⟩
  · rcases hjk with hjk | ⟨heq', -⟩
    · exact .inl (hjk.trans hij)
    · exact .inl (heq' ▸ hij)
  · rcases hjk with hjk | ⟨heq', hjk⟩
    · exact .inl (heq ▸ hjk)
    · exact .inr ⟨heq.trans heq', hij.trans hjk⟩

theorem Before.asymm (hij : Before key i j) : ¬ Before key j i := fun hji =>
  Before.irrefl key i (hij.trans hji)

/-- **Two items that a coarser key puts the other way round** have different keys that the coarser
key does not tell apart. -/
theorem before_and_before_iff {f : K → K'} (hf : Monotone f) :
    Before (fun k => f (key k)) i j ∧ Before key j i ↔
      i < j ∧ key i < key j ∧ f (key i) = f (key j) := by
  constructor
  · rintro ⟨hij, hji | ⟨heq, hji⟩⟩
    · rcases hij with hij | ⟨heq, hij⟩
      · exact absurd (hf hji.le) (not_le.2 hij)
      · exact ⟨hij, hji, heq⟩
    · rcases hij with hij | ⟨-, hij⟩
      · exact absurd (congrArg f heq) hij.ne
      · exact absurd hij hji.asymm
  · rintro ⟨hij, hlt, heq⟩
    exact ⟨.inr ⟨heq, hij⟩, .inl hlt⟩

end Order

/-! ### Stable sorting -/

section Stable

variable {α ι K : Type*} [LinearOrder ι] [LinearOrder K]

/-- **A stable sort by the key, the largest first, of a list whose items come in order.** -/
theorem pairwise_before_insertionSort (key : α → K) (index : α → ι) (l : List α)
    (hl : l.Pairwise fun a b => index a < index b) :
    (l.insertionSort fun a b => key b ≤ key a).Pairwise fun a b =>
      key b < key a ∨ key a = key b ∧ index a < index b := by
  induction l with
  | nil => exact .nil
  | cons a l ih =>
    obtain ⟨ha, hl⟩ := List.pairwise_cons.1 hl
    rw [List.insertionSort_cons]
    have hrest : ∀ b ∈ l.insertionSort fun a b => key b ≤ key a, index a < index b :=
      fun b hb => ha b ((List.mem_insertionSort _).1 hb)
    replace ih := ih hl
    generalize l.insertionSort (fun a b => key b ≤ key a) = s at ih hrest
    -- inserting an item with the smallest index
    induction s with
    | nil => exact List.pairwise_singleton _ _
    | cons b s ihs =>
      obtain ⟨hb, hs⟩ := List.pairwise_cons.1 ih
      rw [List.orderedInsert_cons]
      split
      next hle =>
        refine List.pairwise_cons.2 ⟨fun c hc => ?_, ih⟩
        have hca : key c ≤ key a := by
          rcases List.mem_cons.1 hc with rfl | hc
          · exact hle
          · rcases hb c hc with h | ⟨h, -⟩
            · exact h.le.trans hle
            · exact h ▸ hle
        rcases hca.lt_or_eq with h | h
        · exact .inl h
        · exact .inr ⟨h.symm, hrest c hc⟩
      next hgt =>
        refine List.pairwise_cons.2 ⟨fun c hc => ?_, ihs hs
          fun c hc => hrest c (List.mem_cons_of_mem _ hc)⟩
        rcases (List.mem_orderedInsert _).1 hc with rfl | hc
        · exact .inl (not_le.1 hgt)
        · exact hb c hc

end Stable

/-! ### The first places -/

section Places

variable {α : Type*} {r s : α → α → Prop} [DecidableRel r] {A B : List α} {a b : α}

/-- Nothing is before the first place. -/
theorem countP_first (hirrefl : ∀ a, ¬ r a a) (hr : ∀ a b, r a b → ¬ r b a)
    (hA : (a :: A).Pairwise r) : ((a :: A).countP fun k => r k a) = 0 := by
  rw [List.countP_eq_zero]
  intro k hk
  rw [decide_eq_true_eq]
  rcases List.mem_cons.1 hk with rfl | hk
  · exact hirrefl k
  · exact hr a k (List.rel_of_pairwise_cons hA hk)

/-- The first place is before every other one. -/
theorem countP_cons_of_pairwise (hA : (a :: A).Pairwise r) (hb : b ∈ A) :
    ((a :: A).countP fun k => r k b) = (A.countP fun k => r k b) + 1 := by
  rw [List.countP_cons_of_pos (by simpa using List.rel_of_pairwise_cons hA hb)]

/-- **The first `n` places of two rankings of the same items are the same when no item of the first
`n` places of the one is behind one that the other puts after it.** -/
theorem take_eq_take_iff (hirrefl : ∀ a, ¬ r a a) (hr : ∀ a b, r a b → ¬ r b a)
    (hs : ∀ a b, s a b → ¬ s b a) (hA : A.Pairwise r) (hB : B.Pairwise s) (hperm : A.Perm B)
    (n : ℕ) :
    A.take n = B.take n ↔ ∀ i ∈ A, ∀ j ∈ A, s i j → r j i → n ≤ A.countP fun k => r k j := by
  induction n generalizing A B with
  | zero => simp
  | succ n ih =>
    cases A with
    | nil => simp [hperm.nil_eq.symm]
    | cons a A =>
      cases B with
      | nil => exact absurd hperm.symm (List.not_perm_nil_cons a A)
      | cons b B =>
        rw [List.take_succ_cons, List.take_succ_cons, List.cons.injEq]
        constructor
        · rintro ⟨rfl, htake⟩ i hi j hj hsij hrji
          have hperm' : A.Perm B := hperm.cons_inv
          rcases List.mem_cons.1 hj with rfl | hjA
          · -- the first place of both
            rcases List.mem_cons.1 hi with rfl | hiA
            · exact absurd hrji (hirrefl i)
            · exact absurd hsij (hs _ _ (List.rel_of_pairwise_cons hB (hperm'.subset hiA)))
          · rcases List.mem_cons.1 hi with rfl | hiA
            · exact absurd hrji (hr _ _ (List.rel_of_pairwise_cons hA hjA))
            · have hle := (ih hA.of_cons hB.of_cons hperm').1 htake i hiA j hjA hsij hrji
              rw [countP_cons_of_pairwise hA hjA]
              exact Nat.succ_le_succ hle
        · intro hplaces
          obtain rfl : a = b := by
            by_contra hne
            have hb : b ∈ A := (List.mem_cons.1 (hperm.symm.subset List.mem_cons_self)).resolve_left
              (Ne.symm hne)
            have ha : a ∈ B := (List.mem_cons.1 (hperm.subset List.mem_cons_self)).resolve_left hne
            have hle := hplaces b (List.mem_cons_of_mem _ hb) a List.mem_cons_self
              (List.rel_of_pairwise_cons hB ha) (List.rel_of_pairwise_cons hA hb)
            rw [countP_first hirrefl hr hA] at hle
            exact absurd hle (Nat.not_succ_le_zero n)
          refine ⟨rfl, (ih hA.of_cons hB.of_cons hperm.cons_inv).2 fun i hi j hj hsij hrji => ?_⟩
          have hle := hplaces i (List.mem_cons_of_mem _ hi) j (List.mem_cons_of_mem _ hj) hsij hrji
          rw [countP_cons_of_pairwise hA hj] at hle
          exact Nat.le_of_succ_le_succ hle

/-- No item is behind all the others. -/
theorem countP_lt_length (hirrefl : ∀ a, ¬ r a a) (hb : b ∈ A) :
    (A.countP fun k => r k b) < A.length := by
  refine lt_of_le_of_ne List.countP_le_length fun heq => ?_
  exact hirrefl b (by simpa using List.countP_eq_length.1 heq b hb)

end Places

end OxEmbed.Ranking

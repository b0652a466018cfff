import Mathlib.Data.Finset.Insert
import Mathlib.Data.List.Induction
import Mathlib.Data.List.Sort

/-!
# First occurrences

A loop goes through a list with the set of the values seen so far, and keeps a value when it is
not among them.

## Main definitions

* `visit`, `firstSeen` : the body of the loop, and the values that it keeps.
* `Occurrences` : the values of a list, each once, in the order of their first occurrences.

## Main results

* `occurrences_firstSeen` : what the loop keeps.
* `Occurrences.eq` : the values and their order determine the list.
-/

namespace OxEmbed.FirstSeen

variable {α : Type*} [DecidableEq α]

/-- The body of the loop. -/
def visit (st : Finset α × List α) (a : α) : Finset α × List α :=
  if a ∈ st.1 then st else (insert a st.1, st.2 ++ [a])

/-- The values that the loop keeps. -/
def firstSeen (l : List α) : List α := (l.foldl visit (∅, [])).2

/-- The values of the list `l`, in the order of their first occurrences. -/
structure Occurrences (l out : List α) : Prop where
  mem : ∀ a, a ∈ out ↔ a ∈ l
  order : out.Pairwise fun a b => l.idxOf a < l.idxOf b

variable {l out out' : List α} {a : α}

/-- A value that occurred before is not kept. -/
theorem Occurrences.skip (h : Occurrences l out) (ha : a ∈ l) : Occurrences (l ++ [a]) out where
  mem b := by
    rw [h.mem, List.mem_append, List.mem_singleton]
    exact ⟨.inl, fun hb => hb.elim id fun hba => hba ▸ ha⟩
  order := by
    refine h.order.imp_of_mem fun {b c} hb hc hlt => ?_
    rwa [List.idxOf_append_of_mem ((h.mem b).1 hb), List.idxOf_append_of_mem ((h.mem c).1 hc)]

/-- A new value comes last. -/
theorem Occurrences.push (h : Occurrences l out) (ha : a ∉ l) :
    Occurrences (l ++ [a]) (out ++ [a]) where
  mem b := by
    rw [List.mem_append, List.mem_append, h.mem]
  order := by
    refine List.pairwise_append.2 ⟨?_, List.pairwise_singleton _ _, fun b hb c hc => ?_⟩
    · refine h.order.imp_of_mem fun {b c} hb hc hlt => ?_
      rwa [List.idxOf_append_of_mem ((h.mem b).1 hb), List.idxOf_append_of_mem ((h.mem c).1 hc)]
    · have hlt := List.idxOf_lt_length_iff.2 ((h.mem b).1 hb)
      rw [List.mem_singleton.1 hc, List.idxOf_append_of_mem ((h.mem b).1 hb),
        List.idxOf_append_of_notMem ha]
      omega

/-- The set of the loop has the values seen, and its list their first occurrences. -/
theorem foldl_visit (l : List α) :
    (∀ a, a ∈ (l.foldl visit (∅, [])).1 ↔ a ∈ l) ∧ Occurrences l (firstSeen l) := by
  induction l using List.reverseRecOn with
  | nil => exact ⟨by simp, ⟨by simp [firstSeen], List.Pairwise.nil⟩⟩
  | append_singleton l a ih =>
    obtain ⟨hseen, hout⟩ := ih
    rw [firstSeen, List.foldl_append]
    change (∀ b, b ∈ (visit (l.foldl visit (∅, [])) a).1 ↔ _) ∧
      Occurrences _ (visit (l.foldl visit (∅, [])) a).2
    rw [visit]
    split
    next ha =>
      have ha := (hseen a).1 ha
      refine ⟨fun b => ?_, hout.skip ha⟩
      rw [hseen, List.mem_append, List.mem_singleton]
      exact ⟨.inl, fun hb => hb.elim id fun hba => hba ▸ ha⟩
    next ha =>
      refine ⟨fun b => ?_, hout.push fun hmem => ha ((hseen a).2 hmem)⟩
      rw [Finset.mem_insert, hseen, List.mem_append, List.mem_singleton, or_comm]

/-- **The loop keeps the first occurrence of each value.** -/
theorem occurrences_firstSeen (l : List α) : Occurrences l (firstSeen l) := (foldl_visit l).2

theorem occurrences_of_nodup (h : l.Nodup) : Occurrences l l where
  mem _ := Iff.rfl
  order := by
    rw [List.pairwise_iff_getElem]
    intro i j hi hj hij
    rwa [h.idxOf_getElem i hi, h.idxOf_getElem j hj]

theorem Occurrences.nodup (h : Occurrences l out) : out.Nodup := by
  refine h.order.imp fun {a b} hlt => ?_
  rintro rfl
  exact Nat.lt_irrefl _ hlt

/-- **The values and their order determine the list.** -/
theorem Occurrences.eq (h : Occurrences l out) (h' : Occurrences l out') : out = out' := by
  have hperm : out.Perm out' :=
    (List.perm_ext_iff_of_nodup h.nodup h'.nodup).2 fun a => by rw [h.mem, h'.mem]
  refine List.Perm.eq_of_pairwise (fun a b _ _ hab hba => ?_) h.order h'.order hperm
  omega

/-- Nothing happens to a list without repetitions. -/
theorem firstSeen_of_nodup (h : l.Nodup) : firstSeen l = l :=
  (occurrences_firstSeen l).eq (occurrences_of_nodup h)

end OxEmbed.FirstSeen

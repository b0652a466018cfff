import Mathlib.Data.List.Nodup
import OxEmbed.Library.Machine

/-!
# First-in first-out queues with withdrawals

A queue whose elements leave it in the order in which they were accepted, except that a waiting
element may be withdrawn. A component that hands accepted requests on in order, and leaves some of
them out, is correct when it simulates this machine.

## Main definitions

* `Fifo` : the accepted, withdrawn, waiting and taken elements.
* `Fifo.machine` : accept a new element, withdraw a waiting one, take some from the front.

## Main results

* `Fifo.reachable_conserved` : what was taken, followed by what waits, is what was accepted
  without the withdrawn elements.
-/

namespace OxEmbed

/-- A queue with its history. -/
structure Fifo (α : Type) where
  accepted : List α
  withdrawn : List α
  waiting : List α
  taken : List α

namespace Fifo

variable {α : Type}

/-- What can happen to a queue. -/
inductive Action (α : Type)
  /-- A new element joins the queue at its end. -/
  | accept (x : α)
  /-- A waiting element leaves the queue out of order. -/
  | withdraw (x : α)
  /-- The first `k` waiting elements leave the queue. -/
  | take (k : ℕ)

variable [DecidableEq α]

/-- One step of a queue. -/
def step (q : Fifo α) : Action α → Option (Fifo α)
  | .accept x =>
    if x ∈ q.accepted then none
    else some { q with accepted := q.accepted ++ [x], waiting := q.waiting ++ [x] }
  | .withdraw x =>
    if x ∈ q.waiting then
      some { q with withdrawn := q.withdrawn ++ [x], waiting := q.waiting.erase x }
    else none
  | .take k =>
    some { q with taken := q.taken ++ q.waiting.take k, waiting := q.waiting.drop k }

/-- The queue as a machine that begins empty. -/
def machine (α : Type) [DecidableEq α] : Machine (Fifo α) (Action α) where
  Init q := q = ⟨[], [], [], []⟩
  step := step

/-- The taken and the waiting elements are the accepted ones without the withdrawn ones, in
order, and every element was accepted once and withdrawn at most once. -/
structure Conserved (q : Fifo α) : Prop where
  nodup : q.accepted.Nodup
  withdrawn_nodup : q.withdrawn.Nodup
  withdrawn_subset : q.withdrawn ⊆ q.accepted
  order : q.taken ++ q.waiting = q.accepted.filter (· ∉ q.withdrawn)

namespace Conserved

variable {q : Fifo α} (h : q.Conserved)

include h in
theorem nodup_order : (q.taken ++ q.waiting).Nodup := by
  rw [h.order]
  exact h.nodup.filter _

include h in
theorem mem_waiting {x : α} (hx : x ∈ q.waiting) : x ∈ q.accepted ∧ x ∉ q.withdrawn := by
  have hmem : x ∈ q.taken ++ q.waiting := List.mem_append_right _ hx
  rw [h.order, List.mem_filter] at hmem
  exact ⟨hmem.1, of_decide_eq_true hmem.2⟩

include h in
/-- Erasing the withdrawn elements changes nothing on the side of the queue. -/
theorem order_filter :
    (q.taken ++ q.waiting).filter (· ∉ q.withdrawn) = q.accepted.filter (· ∉ q.withdrawn) := by
  rw [h.order, List.filter_filter]
  simp only [Bool.and_self]

include h in
/-- No accepted element is lost or duplicated. -/
theorem perm : (q.taken ++ q.waiting ++ q.withdrawn).Perm q.accepted := by
  refine (List.perm_ext_iff_of_nodup ?_ h.nodup).mpr fun x => ?_
  · refine List.Nodup.append h.nodup_order h.withdrawn_nodup fun x hx hw => ?_
    rw [h.order, List.mem_filter] at hx
    exact of_decide_eq_true hx.2 hw
  · rw [h.order, List.mem_append, List.mem_filter, decide_eq_true_eq]
    constructor
    · rintro (⟨hx, -⟩ | hx)
      · exact hx
      · exact h.withdrawn_subset hx
    · intro hx
      by_cases hw : x ∈ q.withdrawn
      · exact .inr hw
      · exact .inl ⟨hx, hw⟩

end Conserved

/-- **Step lemma.** Every step of a queue keeps its elements. -/
theorem Conserved.step {q q' : Fifo α} {a : Action α} (h : q.Conserved)
    (hstep : Fifo.step q a = some q') : q'.Conserved := by
  cases a with
  | accept x =>
    simp only [Fifo.step] at hstep
    split at hstep <;> cases hstep
    rename_i hx
    have hw : x ∉ q.withdrawn := fun hw => hx (h.withdrawn_subset hw)
    refine ⟨?_, h.withdrawn_nodup, fun y hy => ?_, ?_⟩
    · exact List.nodup_append.mpr ⟨h.nodup, List.nodup_singleton x,
        fun y hy z hz => by rintro rfl; exact hx (List.mem_singleton.mp hz ▸ hy)⟩
    · exact List.mem_append_left _ (h.withdrawn_subset hy)
    · rw [← List.append_assoc, h.order, List.filter_append]
      simp [hw]
  | withdraw x =>
    simp only [Fifo.step] at hstep
    split at hstep <;> cases hstep
    rename_i hx
    obtain ⟨hacc, hw⟩ := h.mem_waiting hx
    have htaken : x ∉ q.taken := fun ht =>
      List.disjoint_of_nodup_append h.nodup_order ht hx
    have hwaiting : q.waiting.Nodup := (List.nodup_append.mp h.nodup_order).2.1
    refine ⟨h.nodup, ?_, ?_, ?_⟩
    · exact List.nodup_append.mpr ⟨h.withdrawn_nodup, List.nodup_singleton x,
        fun y hy z hz => by rintro rfl; exact hw (List.mem_singleton.mp hz ▸ hy)⟩
    · exact List.append_subset.mpr ⟨h.withdrawn_subset, by simpa using hacc⟩
    · calc q.taken ++ q.waiting.erase x
          = (q.taken ++ q.waiting).filter (· ≠ x) := by
            rw [List.filter_append, hwaiting.erase_eq_filter]
            congr 1
            · exact (List.filter_eq_self.mpr fun y hy =>
                decide_eq_true (ne_of_mem_of_not_mem hy htaken)).symm
            · exact List.filter_congr fun y _ => by simp only [bne, beq_eq_decide, decide_not]
        _ = q.accepted.filter (· ∉ q.withdrawn ++ [x]) := by
            rw [h.order, List.filter_filter]
            exact List.filter_congr fun y _ => by
              simp [not_or, and_comm]
  | take k =>
    cases hstep
    refine ⟨h.nodup, h.withdrawn_nodup, h.withdrawn_subset, ?_⟩
    rw [List.append_assoc, List.take_append_drop]
    exact h.order

/-- **Run lemma.** Every reachable queue keeps its elements. -/
theorem reachable_conserved {C : Fifo α → Action α → Prop} {q : Fifo α}
    (hq : (machine α).Reachable C q) : q.Conserved := by
  refine hq.invariant ?_ fun q a q' h _ hstep => h.step hstep
  rintro _ rfl
  exact ⟨List.nodup_nil, List.nodup_nil, List.Subset.refl _, rfl⟩

end Fifo

end OxEmbed

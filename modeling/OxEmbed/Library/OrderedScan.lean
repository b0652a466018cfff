import Mathlib.Data.Finset.Card

/-!
# Counting in an ordered scan

Processes walk along the positions `0, 1, …` from left to right. A process may stay at a
position, move one position on while another process is at its position, step back, leave, or
enter again at position `0`. If at most `N` processes are inside at any time then position `k`
and the positions after it hold at most `N - k` processes: whoever passes a position leaves
another process behind on it. In particular no process ever gets to position `N`.

The counting invariant is the one of long-lived renaming by a row of test-and-set objects. It is
stated with finite sets of processes, so that neither the type of processes nor the set of
processes inside needs to be finite.

## Main definitions

* `OrderedScan.Sparse` : the counting invariant.

## Main results

* `OrderedScan.Sparse.of_le`, `OrderedScan.Sparse.advance`, `OrderedScan.Sparse.enter` : the
  moves that keep the invariant.
* `OrderedScan.Sparse.lt` : under the invariant every process is at a position below `N`.
-/

namespace OxEmbed.OrderedScan

variable {P : Type*}

/-- The process `p` is at position `k` or after it; `none` is the position of a process outside. -/
def AtOrAfter (pos : P → Option ℕ) (k : ℕ) (p : P) : Prop :=
  ∃ i, pos p = some i ∧ k ≤ i

/-- **The counting invariant.** Every finite set of processes at position `k` or after it has at
most `N - k` elements. -/
def Sparse (N : ℕ) (pos : P → Option ℕ) : Prop :=
  ∀ k ≤ N, ∀ S : Finset P, (∀ p ∈ S, AtOrAfter pos k p) → S.card + k ≤ N

variable {N : ℕ} {pos pos' : P → Option ℕ}

theorem sparse_of_outside (h : ∀ p, pos p = none) : Sparse N pos := by
  intro k hk S hS
  obtain rfl : S = ∅ := Finset.eq_empty_of_forall_notMem fun p hp => by
    obtain ⟨i, hi, -⟩ := hS p hp
    simp [h p] at hi
  simpa using hk

/-- Processes may stay, step back and leave. -/
theorem Sparse.of_le (h : Sparse N pos)
    (hle : ∀ p j, pos' p = some j → ∃ i, pos p = some i ∧ j ≤ i) : Sparse N pos' := by
  intro k hk S hS
  refine h k hk S fun p hp => ?_
  obtain ⟨j, hj, hkj⟩ := hS p hp
  obtain ⟨i, hi, hji⟩ := hle p j hj
  exact ⟨i, hi, hkj.trans hji⟩

/-- A process may pass a position while another process is on it. -/
theorem Sparse.advance (h : Sparse N pos) {p q : P} {i : ℕ} (hpq : q ≠ p) (hp : pos p = some i)
    (hq : pos q = some i) (hp' : pos' p = some (i + 1)) (hother : ∀ r, r ≠ p → pos' r = pos r) :
    Sparse N pos' := by
  classical
  have hfrom : ∀ k, k ≠ i + 1 → ∀ r, AtOrAfter pos' k r → AtOrAfter pos k r := by
    rintro k hk r ⟨j, hj, hkj⟩
    by_cases hr : r = p
    · subst hr
      obtain rfl : i + 1 = j := Option.some.inj (hp'.symm.trans hj)
      exact ⟨i, hp, by omega⟩
    · exact ⟨j, by rwa [← hother r hr], hkj⟩
  intro k hk S hS
  by_cases hki : k = i + 1
  · -- the process left behind at `i` is not counted after the move, but was counted before
    subst hki
    have hqS : q ∉ S := fun hqS => by
      obtain ⟨j, hj, hij⟩ := hS q hqS
      rw [hother q hpq, hq] at hj
      obtain rfl : i = j := Option.some.inj hj
      omega
    have hcard := h i (by omega) (insert q S) fun r hr => by
      rcases Finset.mem_insert.mp hr with rfl | hr
      · exact ⟨i, hq, le_rfl⟩
      · obtain ⟨j, hj, hij⟩ := hS r hr
        exact hfrom i (by omega) r ⟨j, hj, by omega⟩
    rw [Finset.card_insert_of_notMem hqS] at hcard
    omega
  · exact h k hk S fun r hr => hfrom k hki r (hS r hr)

/-- A process may enter at position `0` as long as fewer than `N` processes are inside. -/
theorem Sparse.enter (h : Sparse N pos) {p : P} (hout : pos p = none)
    (hp' : pos' p = some 0) (hother : ∀ r, r ≠ p → pos' r = pos r)
    (hroom : ∀ S : Finset P, (∀ r ∈ S, AtOrAfter pos 0 r) → S.card < N) : Sparse N pos' := by
  classical
  intro k hk S hS
  rcases Nat.eq_zero_or_pos k with rfl | hpos
  · have hcard := hroom (S.erase p) fun r hr => by
      obtain ⟨hrp, hrS⟩ := Finset.mem_erase.mp hr
      obtain ⟨j, hj, hj0⟩ := hS r hrS
      exact ⟨j, by rwa [← hother r hrp], hj0⟩
    have hle := Finset.pred_card_le_card_erase (s := S) (a := p)
    omega
  · refine h k hk S fun r hr => ?_
    obtain ⟨j, hj, hkj⟩ := hS r hr
    have hrp : r ≠ p := by
      rintro rfl
      obtain rfl : 0 = j := Option.some.inj (hp'.symm.trans hj)
      omega
    exact ⟨j, by rwa [← hother r hrp], hkj⟩

/-- Under the counting invariant every process is at a position below `N`. -/
theorem Sparse.lt (h : Sparse N pos) {p : P} {i : ℕ} (hp : pos p = some i) : i < N := by
  by_contra hi
  have hcard := h N le_rfl {p} fun r hr => by
    obtain rfl := Finset.mem_singleton.mp hr
    exact ⟨i, hp, by omega⟩
  rw [Finset.card_singleton] at hcard
  omega

end OxEmbed.OrderedScan

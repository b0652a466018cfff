import Mathlib.Data.List.Forall2
import Mathlib.Data.List.Nodup

/-!
# Splicing results back by position lists

A list of keys is resolved slot by slot: some slots are filled at once, and the positions of the
others are grouped by key, so that each open key is resolved once and its value is copied to all
of its positions. The keys of the groups may be resolved in any order.

Which values are right for a key is a relation `R`; when every value that enters a slot is right
for the key at that slot, so is every value of the spliced list.

## Main definitions

* `push`, `positions`, `fill` : the groups of positions, and copying a value to a group.
* `Partitioned` : the slots and the groups after the first `k` keys.
* `Spliced` : the slots while the groups in a list are still to be filled.

## Main results

* `Partitioned.hit`, `Partitioned.miss` : one key more.
* `Spliced.of_partitioned`, `Spliced.fill` : the first and the next group.
* `Spliced.values` : at the end the slots hold right values for the keys, in order.
-/

namespace OxEmbed.Splice

variable {α β : Type} [DecidableEq α]

/-! ### Groups of positions -/

/-- Add a position to the group of a key. -/
def push (a : α) (i : ℕ) : List (α × List ℕ) → List (α × List ℕ)
  | [] => [(a, [i])]
  | (b, ps) :: groups => if b = a then (b, ps ++ [i]) :: groups else (b, ps) :: push a i groups

/-- The positions of a key. -/
def positions (a : α) : List (α × List ℕ) → Option (List ℕ)
  | [] => none
  | (b, ps) :: groups => if b = a then some ps else positions a groups

omit [DecidableEq α] in
/-- Copy a value to all positions of a group. -/
def fill (slots : List (Option β)) (ps : List ℕ) (v : β) : List (Option β) :=
  ps.foldl (fun slots p => slots.set p (some v)) slots

/-- The values of the slots, when all are filled. -/
def collect (slots : List (Option β)) : Option (List β) := slots.mapM id

/-! ### Loops that may stop -/

section Loops

variable {γ : Type} {f : α → Option β} {g : γ → α} {h : γ → β} {l : List γ}

omit [DecidableEq α]

/-- A loop all of whose steps give a result. -/
theorem mapM_eq_some {k : α → β} {l : List α} (hf : ∀ a ∈ l, f a = some (k a)) :
    l.mapM f = some (l.map k) := by
  induction l with
  | nil => rfl
  | cons a l ih =>
    rw [List.mapM_cons, hf a List.mem_cons_self, ih fun b hb => hf b (List.mem_cons_of_mem _ hb)]
    rfl

/-- A loop over an image all of whose steps give a result. -/
theorem mapM_map_eq_some (hf : ∀ c ∈ l, f (g c) = some (h c)) :
    (l.map g).mapM f = some (l.map h) := by
  rw [List.mapM_map]
  exact mapM_eq_some hf

/-- A loop with a step that gives no result. -/
theorem mapM_eq_none {l : List α} {a : α} (ha : a ∈ l) (hf : f a = none) : l.mapM f = none := by
  induction l with
  | nil => cases ha
  | cons b l ih =>
    rw [List.mapM_cons]
    rcases List.mem_cons.1 ha with rfl | ha
    · rw [hf]
      rfl
    · rw [ih ha]
      cases f b <;> rfl

end Loops

variable {a b : α} {i k : ℕ} {ps : List ℕ} {groups : List (α × List ℕ)}

theorem mem_push (h : (b, ps) ∈ push a i groups) :
    (b, ps) ∈ groups ∨ b = a ∧ ∀ p ∈ ps, p = i ∨ ∃ qs, (a, qs) ∈ groups ∧ p ∈ qs := by
  induction groups with
  | nil =>
    obtain ⟨rfl, rfl⟩ := Prod.mk.inj (List.mem_singleton.mp h)
    exact .inr ⟨rfl, fun p hp => .inl (List.mem_singleton.mp hp)⟩
  | cons g groups ih =>
    obtain ⟨c, qs⟩ := g
    rw [push] at h
    split at h
    · subst c
      rcases List.mem_cons.mp h with heq | h
      · obtain ⟨rfl, rfl⟩ := Prod.mk.inj heq
        refine .inr ⟨rfl, fun p hp => ?_⟩
        rcases List.mem_append.mp hp with hp | hp
        · exact .inr ⟨qs, List.mem_cons_self, hp⟩
        · exact .inl (List.mem_singleton.mp hp)
      · exact .inl (List.mem_cons_of_mem _ h)
    · rcases List.mem_cons.mp h with heq | h
      · exact .inl (heq ▸ List.mem_cons_self)
      · rcases ih h with h | ⟨rfl, hall⟩
        · exact .inl (List.mem_cons_of_mem _ h)
        · refine .inr ⟨rfl, fun p hp => (hall p hp).imp id ?_⟩
          rintro ⟨rs, hr, hp⟩
          exact ⟨rs, List.mem_cons_of_mem _ hr, hp⟩

theorem push_mem (a : α) (i : ℕ) (groups : List (α × List ℕ)) :
    ∃ ps, (a, ps) ∈ push a i groups ∧ i ∈ ps := by
  induction groups with
  | nil => exact ⟨[i], List.mem_cons_self, List.mem_cons_self⟩
  | cons g groups ih =>
    obtain ⟨c, qs⟩ := g
    rw [push]
    split
    · subst c
      exact ⟨qs ++ [i], List.mem_cons_self, List.mem_append_right _ List.mem_cons_self⟩
    · obtain ⟨ps, hps, hi⟩ := ih
      exact ⟨ps, List.mem_cons_of_mem _ hps, hi⟩

theorem push_mono (h : (b, ps) ∈ groups) (hp : k ∈ ps) :
    ∃ qs, (b, qs) ∈ push a i groups ∧ k ∈ qs := by
  induction groups with
  | nil => cases h
  | cons g groups ih =>
    obtain ⟨c, rs⟩ := g
    rw [push]
    rcases List.mem_cons.mp h with heq | h
    · obtain ⟨rfl, rfl⟩ := Prod.mk.inj heq
      split
      · exact ⟨ps ++ [i], List.mem_cons_self, List.mem_append_left _ hp⟩
      · exact ⟨ps, List.mem_cons_self, hp⟩
    · split
      · exact ⟨ps, List.mem_cons_of_mem _ h, hp⟩
      · obtain ⟨qs, hqs, hk⟩ := ih h
        exact ⟨qs, List.mem_cons_of_mem _ hqs, hk⟩

theorem keys_push (a : α) (i : ℕ) (groups : List (α × List ℕ)) :
    (push a i groups).map Prod.fst =
      if a ∈ groups.map Prod.fst then groups.map Prod.fst else groups.map Prod.fst ++ [a] := by
  induction groups with
  | nil => rfl
  | cons g groups ih =>
    obtain ⟨c, qs⟩ := g
    rw [push]
    split
    · subst c
      rw [List.map_cons, List.map_cons, if_pos List.mem_cons_self]
    · rename_i hc
      have hmem : a ∈ c :: groups.map Prod.fst ↔ a ∈ groups.map Prod.fst := by
        rw [List.mem_cons]
        exact ⟨fun h => h.resolve_left fun heq => hc heq.symm, .inr⟩
      rw [List.map_cons, List.map_cons, ih]
      simp only [hmem]
      split <;> rfl

theorem nodup_keys_push (h : (groups.map Prod.fst).Nodup) :
    ((push a i groups).map Prod.fst).Nodup := by
  rw [keys_push]
  split
  · exact h
  · rename_i ha
    refine List.nodup_append.mpr ⟨h, List.nodup_singleton a, ?_⟩
    rintro b hb c hc rfl
    exact ha (List.mem_singleton.mp hc ▸ hb)

theorem positions_eq (hnodup : (groups.map Prod.fst).Nodup) (h : (a, ps) ∈ groups) :
    positions a groups = some ps := by
  induction groups with
  | nil => cases h
  | cons g groups ih =>
    obtain ⟨c, qs⟩ := g
    rw [List.map_cons, List.nodup_cons] at hnodup
    rw [positions]
    rcases List.mem_cons.mp h with heq | h
    · obtain ⟨rfl, rfl⟩ := Prod.mk.inj heq
      rw [if_pos rfl]
    · have hne : c ≠ a := by
        rintro rfl
        exact hnodup.1 (List.mem_map.mpr ⟨_, h, rfl⟩)
      rw [if_neg hne]
      exact ih hnodup.2 h

/-! ### Filling a group -/

variable {slots : List (Option β)} {v : β}

omit [DecidableEq α] in
theorem length_fill (slots : List (Option β)) (ps : List ℕ) (v : β) :
    (fill slots ps v).length = slots.length := by
  induction ps generalizing slots with
  | nil => rfl
  | cons p ps ih =>
    rw [fill, List.foldl_cons]
    exact (ih _).trans (List.length_set ..)

theorem getElem?_fill_of_notMem (slots : List (Option β)) (v : β) (h : i ∉ ps) :
    (fill slots ps v)[i]? = slots[i]? := by
  induction ps generalizing slots with
  | nil => rfl
  | cons p ps ih =>
    obtain ⟨hne, hps⟩ := not_or.mp fun hor => h (List.mem_cons.mpr hor)
    rw [fill, List.foldl_cons]
    exact (ih _ hps).trans (List.getElem?_set_ne (Ne.symm hne))

theorem getElem?_fill_of_mem (slots : List (Option β)) (v : β) (h : i ∈ ps)
    (hlt : i < slots.length) : (fill slots ps v)[i]? = some (some v) := by
  induction ps generalizing slots with
  | nil => cases h
  | cons p ps ih =>
    have hlt' : i < (slots.set p (some v)).length := by rwa [List.length_set]
    rw [fill, List.foldl_cons]
    by_cases hps : i ∈ ps
    · exact ih _ hps hlt'
    · obtain rfl : i = p := (List.mem_cons.mp h).resolve_right hps
      exact (getElem?_fill_of_notMem _ v hps).trans (List.getElem?_set_self hlt)

/-! ### Partitioning -/

variable {R R' : α → β → Prop} {keys : List α}

/-- A slot is filled with a right value for its key. -/
def Filled (R : α → β → Prop) (slots : List (Option β)) (i : ℕ) (a : α) : Prop :=
  ∃ v, slots[i]? = some (some v) ∧ R a v

/-- After the first `k` keys each of them is filled, or open with its position in the group of the
key. -/
structure Partitioned (R : α → β → Prop) (keys : List α) (k : ℕ) (slots : List (Option β))
    (groups : List (α × List ℕ)) : Prop where
  length : slots.length = keys.length
  nodup : (groups.map Prod.fst).Nodup
  valid : ∀ a ps, (a, ps) ∈ groups → ∀ p ∈ ps, keys[p]? = some a
  cover : ∀ i a, i < k → keys[i]? = some a → Filled R slots i a ∨
    slots[i]? = some none ∧ ∃ ps, (a, ps) ∈ groups ∧ i ∈ ps
  blank : ∀ i, k ≤ i → i < keys.length → slots[i]? = some none

namespace Partitioned

omit [DecidableEq α] in
theorem start (R : α → β → Prop) (keys : List α) :
    Partitioned R keys 0 (List.replicate keys.length none) [] where
  length := List.length_replicate
  nodup := List.nodup_nil
  valid := fun _ _ h => absurd h List.not_mem_nil
  cover := fun _ _ h => absurd h (Nat.not_lt_zero _)
  blank := fun _ _ h => List.getElem?_replicate_of_lt h

omit [DecidableEq α] in
theorem mono (h : Partitioned R keys k slots groups) (hR : ∀ a v, R a v → R' a v) :
    Partitioned R' keys k slots groups where
  length := h.length
  nodup := h.nodup
  valid := h.valid
  cover := fun i a hi ha => (h.cover i a hi ha).imp_left fun ⟨v, hv, hr⟩ => ⟨v, hv, hR a v hr⟩
  blank := h.blank

omit [DecidableEq α] in
/-- The next key is resolved at once. -/
theorem hit (h : Partitioned R keys k slots groups) (ha : keys[k]? = some a) (hv : R a v) :
    Partitioned R keys (k + 1) (slots.set k (some v)) groups where
  length := by rw [List.length_set, h.length]
  nodup := h.nodup
  valid := h.valid
  cover := by
    intro i b hi hb
    have hlt : k < slots.length := h.length ▸ (List.getElem?_eq_some_iff.mp ha).1
    rcases Nat.lt_succ_iff_lt_or_eq.mp hi with hi | rfl
    · have hne : k ≠ i := by omega
      rw [Filled, List.getElem?_set_ne hne]
      exact h.cover i b hi hb
    · obtain rfl : a = b := Option.some.inj (ha.symm.trans hb)
      exact .inl ⟨v, List.getElem?_set_self hlt, hv⟩
  blank := by
    intro i hi hlt
    have hne : k ≠ i := by omega
    rw [List.getElem?_set_ne hne]
    exact h.blank i (by omega) hlt

/-- The next key joins its group. -/
theorem miss (h : Partitioned R keys k slots groups) (ha : keys[k]? = some a) :
    Partitioned R keys (k + 1) slots (push a k groups) where
  length := h.length
  nodup := nodup_keys_push h.nodup
  valid := by
    intro b ps hmem p hp
    rcases mem_push hmem with hmem | ⟨rfl, hall⟩
    · exact h.valid b ps hmem p hp
    · rcases hall p hp with rfl | ⟨qs, hqs, hp⟩
      · exact ha
      · exact h.valid b qs hqs p hp
  cover := by
    intro i b hi hb
    rcases Nat.lt_succ_iff_lt_or_eq.mp hi with hi | rfl
    · refine (h.cover i b hi hb).imp_right fun ⟨hnone, ps, hps, hmem⟩ => ⟨hnone, ?_⟩
      exact push_mono hps hmem
    · obtain rfl : a = b := Option.some.inj (ha.symm.trans hb)
      exact .inr ⟨h.blank i (Nat.le_refl i) (List.getElem?_eq_some_iff.mp ha).1,
        push_mem a i groups⟩
  blank := fun i hi => h.blank i (by omega)

end Partitioned

/-! ### Splicing -/

/-- The slots while the groups of `todo` are still to be filled. -/
structure Spliced (R : α → β → Prop) (keys : List α) (slots : List (Option β))
    (groups : List (α × List ℕ)) (todo : List (α × β)) : Prop where
  length : slots.length = keys.length
  nodup : (groups.map Prod.fst).Nodup
  valid : ∀ a ps, (a, ps) ∈ groups → ∀ p ∈ ps, keys[p]? = some a
  right : ∀ a v, (a, v) ∈ todo → R a v
  known : ∀ a v, (a, v) ∈ todo → ∃ ps, (a, ps) ∈ groups
  cover : ∀ i a, keys[i]? = some a → Filled R slots i a ∨
    a ∈ todo.map Prod.fst ∧ ∃ ps, (a, ps) ∈ groups ∧ i ∈ ps

namespace Spliced

omit [DecidableEq α] in
theorem mono {todo : List (α × β)} (h : Spliced R keys slots groups todo)
    (hR : ∀ a v, R a v → R' a v) : Spliced R' keys slots groups todo where
  length := h.length
  nodup := h.nodup
  valid := h.valid
  right := fun a v hv => hR a v (h.right a v hv)
  known := h.known
  cover := fun i a ha => (h.cover i a ha).imp_left fun ⟨v, hv, hr⟩ => ⟨v, hv, hR a v hr⟩

omit [DecidableEq α] in
/-- All keys are partitioned, and the open keys, in any order, come with right values. -/
theorem of_partitioned (h : Partitioned R keys keys.length slots groups) {opened : List α}
    {values : List β} (hperm : opened.Perm (groups.map Prod.fst))
    (hlen : opened.length ≤ values.length) (hright : ∀ p ∈ opened.zip values, R p.1 p.2) :
    Spliced R keys slots groups (opened.zip values) where
  length := h.length
  nodup := h.nodup
  valid := h.valid
  right := fun a v hv => hright (a, v) hv
  known := by
    intro a v hv
    have hmem := hperm.mem_iff.mp (List.of_mem_zip hv).1
    obtain ⟨⟨b, ps⟩, hps, rfl⟩ := List.mem_map.mp hmem
    exact ⟨ps, hps⟩
  cover := by
    intro i a ha
    refine (h.cover i a (List.getElem?_eq_some_iff.mp ha).1 ha).imp_right ?_
    rintro ⟨-, ps, hps, hi⟩
    rw [List.map_fst_zip hlen]
    exact ⟨hperm.mem_iff.mpr (List.mem_map.mpr ⟨_, hps, rfl⟩), ps, hps, hi⟩

/-- The next group is known, and filling it leaves the others to be filled. -/
theorem fill {todo : List (α × β)} (h : Spliced R keys slots groups ((a, v) :: todo)) :
    ∃ ps, positions a groups = some ps ∧
      Spliced R keys (Splice.fill slots ps v) groups todo := by
  obtain ⟨ps, hps⟩ := h.known a v List.mem_cons_self
  refine ⟨ps, positions_eq h.nodup hps, ?_⟩
  refine ⟨(length_fill ..).trans h.length, h.nodup, h.valid,
    fun b w hw => h.right b w (List.mem_cons_of_mem _ hw),
    fun b w hw => h.known b w (List.mem_cons_of_mem _ hw), fun i b hb => ?_⟩
  have hlt : i < slots.length := h.length ▸ (List.getElem?_eq_some_iff.mp hb).1
  by_cases hi : i ∈ ps
  · obtain rfl : a = b := Option.some.inj ((h.valid a ps hps i hi).symm.trans hb)
    exact .inl ⟨v, getElem?_fill_of_mem slots v hi hlt, h.right a v List.mem_cons_self⟩
  · rw [Filled, getElem?_fill_of_notMem slots v hi]
    refine (h.cover i b hb).imp_right fun ⟨hmem, qs, hqs, hiq⟩ => ⟨?_, qs, hqs, hiq⟩
    refine (List.mem_cons.mp hmem).resolve_left ?_
    rintro rfl
    -- a group is known by its key, so `i` would be in the group filled
    have heq := (positions_eq h.nodup hps).symm.trans (positions_eq h.nodup hqs)
    obtain rfl := Option.some.inj heq
    exact hi hiq

omit [DecidableEq α] in
/-- When no group is left, the slots hold right values for the keys, in order. -/
theorem values (h : Spliced R keys slots groups []) :
    ∃ vs, collect slots = some vs ∧ List.Forall₂ R keys vs := by
  have hfilled : ∀ i a, keys[i]? = some a → Filled R slots i a := fun i a ha =>
    (h.cover i a ha).resolve_right fun hnone => List.not_mem_nil hnone.1
  have hlength := h.length
  clear h
  induction keys generalizing slots with
  | nil =>
    obtain rfl := List.length_eq_zero_iff.mp hlength
    exact ⟨[], rfl, .nil⟩
  | cons a keys ih =>
    obtain ⟨v, hv, hr⟩ := hfilled 0 a rfl
    cases slots with
    | nil => cases hlength
    | cons slot slots =>
      obtain rfl := Option.some.inj hv
      obtain ⟨vs, hvs, hall⟩ := ih (fun i b hb => hfilled (i + 1) b hb) (Nat.succ.inj hlength)
      refine ⟨v :: vs, ?_, .cons hr hall⟩
      rw [collect] at hvs ⊢
      rw [List.mapM_cons, hvs]
      rfl

omit [DecidableEq α] in
/-- When all keys are partitioned and no group is open, nothing is left to fill. -/
theorem of_no_groups (h : Partitioned R keys keys.length slots []) :
    Spliced R keys slots [] [] := by
  have hnone : Spliced R keys slots [] (([] : List α).zip ([] : List β)) :=
    of_partitioned h (List.Perm.refl _) (Nat.le_refl _) nofun
  exact hnone

end Spliced

end OxEmbed.Splice

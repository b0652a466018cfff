import Mathlib.Data.List.Forall2

/-!
# Filling the open slots of a list in order

A list of keys is resolved slot by slot. A slot has its position and, once it is resolved, a value;
the slots that a first pass leaves open are filled in order by a second one, from a list of rows
that carry the positions for which they are meant. Which values are right for a key is a relation
`R`.

## Main definitions

* `Probed` : the slots of the first keys after the first pass.
* `holes` : the positions of the open slots.
* `Filling` : the second pass, with the slots behind it and the slots before it.

## Main results

* `Filling.start`, `Filling.keep`, `Filling.fill` : the start of the second pass and its steps.
* `Filling.values` : at the end the slots hold right values for the keys, in order.
-/

namespace OxEmbed.Holes

variable {α β : Type} {R : α → β → Prop} {keys : List α}

/-! ### The first pass -/

/-- The slots of the first keys: each has its position, and a value in it is right for the key. -/
structure Probed (R : α → β → Prop) (keys : List α) (slots : List (ℕ × Option β)) : Prop where
  length : slots.length ≤ keys.length
  slot : ∀ (i j : ℕ) (v : Option β), slots[i]? = some (j, v) →
    j = i ∧ ∀ b ∈ v, ∃ a, keys[i]? = some a ∧ R a b

/-- The positions of the open slots. -/
def holes (slots : List (ℕ × Option β)) : List ℕ :=
  (slots.filter fun slot => slot.2.isNone).map Prod.fst

variable {slots done todo : List (ℕ × Option β)} {a : α} {b : β} {v : Option β} {j : ℕ}

namespace Probed

theorem nil (R : α → β → Prop) (keys : List α) : Probed R keys [] where
  length := Nat.zero_le _
  slot _ _ _ h := nomatch h

/-- The next slot. -/
theorem concat (h : Probed R keys slots) (ha : keys[slots.length]? = some a)
    (hv : ∀ b ∈ v, R a b) : Probed R keys (slots ++ [(slots.length, v)]) where
  length := by
    obtain ⟨hlt, -⟩ := List.getElem?_eq_some_iff.1 ha
    rw [List.length_append, List.length_singleton]
    omega
  slot i j w hi := by
    rcases Nat.lt_trichotomy i slots.length with hlt | rfl | hgt
    · rw [List.getElem?_append_left hlt] at hi
      exact h.slot i j w hi
    · rw [List.getElem?_concat_length] at hi
      obtain ⟨rfl, rfl⟩ := Prod.mk.inj (Option.some.inj hi)
      exact ⟨rfl, fun b hb => ⟨a, ha, hv b hb⟩⟩
    · rw [List.getElem?_eq_none (by simp; omega)] at hi
      cases hi

/-- A slot that is open gets a right value. -/
theorem set (h : Probed R keys (done ++ (j, none) :: todo)) (ha : keys[j]? = some a)
    (hb : R a b) : Probed R keys (done ++ (j, some b) :: todo) where
  length := by
    have hlen := h.length
    simpa using hlen
  slot i k w hi := by
    have hj : j = done.length := (h.slot done.length j none (by simp)).1
    by_cases hne : i = done.length
    · subst hne
      rw [List.getElem?_append_right (Nat.le_refl _), Nat.sub_self, List.getElem?_cons_zero] at hi
      obtain ⟨rfl, rfl⟩ := Prod.mk.inj (Option.some.inj hi)
      refine ⟨hj, fun b' hb' => ⟨a, hj ▸ ha, ?_⟩⟩
      rwa [← Option.some.inj hb']
    · refine h.slot i k w (hi ▸ ?_)
      rcases Nat.lt_or_gt_of_ne hne with hlt | hgt
      · rw [List.getElem?_append_left hlt, List.getElem?_append_left hlt]
      · rw [List.getElem?_append_right (Nat.le_of_lt hgt),
          List.getElem?_append_right (Nat.le_of_lt hgt)]
        obtain ⟨n, hn⟩ := Nat.exists_eq_succ_of_ne_zero (Nat.sub_ne_zero_of_lt hgt)
        rw [hn, Nat.succ_eq_add_one, List.getElem?_cons_succ, List.getElem?_cons_succ]

/-- Slots that are all resolved hold right values, in the order of the keys. -/
theorem values (h : Probed R keys slots) (hlen : slots.length = keys.length)
    (hsome : ∀ slot ∈ slots, slot.2.isSome) :
    ∃ bs, slots.mapM Prod.snd = some bs ∧ List.Forall₂ R keys bs := by
  have hslot (i : ℕ) (a : α) (ha : keys[i]? = some a) :
      ∃ j b, slots[i]? = some (j, some b) ∧ R a b := by
    obtain ⟨hlt, -⟩ := List.getElem?_eq_some_iff.1 ha
    obtain ⟨⟨j, v⟩, hi⟩ : ∃ slot, slots[i]? = some slot :=
      ⟨_, List.getElem?_eq_getElem (hlen ▸ hlt)⟩
    obtain ⟨b, rfl⟩ := Option.isSome_iff_exists.1 (hsome _ (List.mem_of_getElem? hi))
    obtain ⟨-, hright⟩ := h.slot i j _ hi
    obtain ⟨a', ha', hR⟩ := hright b rfl
    obtain rfl := Option.some.inj (ha.symm.trans ha')
    exact ⟨j, b, hi, hR⟩
  clear h hsome
  induction keys generalizing slots with
  | nil =>
    obtain rfl := List.length_eq_zero_iff.1 hlen
    exact ⟨[], rfl, .nil⟩
  | cons a keys ih =>
    obtain ⟨j, b, hi, hR⟩ := hslot 0 a rfl
    cases slots with
    | nil => cases hi
    | cons slot slots =>
      obtain rfl := Option.some.inj hi
      obtain ⟨bs, hbs, hall⟩ := ih (Nat.succ.inj hlen) fun i => hslot (i + 1)
      refine ⟨b :: bs, ?_, .cons hR hall⟩
      rw [List.mapM_cons, hbs]
      rfl

end Probed

theorem holes_cons_some : holes ((j, some b) :: todo) = holes todo := by
  rw [holes, List.filter_cons_of_neg (by simp), holes]

theorem holes_cons_none : holes ((j, (none : Option β)) :: todo) = j :: holes todo := by
  rw [holes, List.filter_cons_of_pos (by simp), List.map_cons, holes]

theorem isSome_of_holes_eq_nil (h : holes slots = []) : ∀ slot ∈ slots, slot.2.isSome := by
  intro slot hslot
  by_contra hnone
  have hmem : slot ∈ slots.filter fun slot => slot.2.isNone :=
    List.mem_filter.2 ⟨hslot, by simpa using hnone⟩
  rw [List.map_eq_nil_iff.1 h] at hmem
  cases hmem

/-- The open slots belong to keys. -/
theorem Probed.exists_of_mem_holes (h : Probed R keys slots) (hj : j ∈ holes slots) :
    ∃ a, keys[j]? = some a := by
  obtain ⟨⟨j', v⟩, hslot, rfl⟩ := List.mem_map.1 hj
  obtain ⟨i, hi⟩ := List.mem_iff_getElem?.1 (List.mem_filter.1 hslot).1
  obtain ⟨rfl, -⟩ := h.slot i j' v hi
  obtain ⟨hlt, -⟩ := List.getElem?_eq_some_iff.1 hi
  exact ⟨_, List.getElem?_eq_getElem (Nat.lt_of_lt_of_le hlt h.length)⟩

theorem Probed.exists_opened (h : Probed R keys slots) :
    ∃ opened, (holes slots).mapM (fun j => keys[j]?) = some opened := by
  have hall : ∀ j ∈ holes slots, ∃ a, keys[j]? = some a := fun j hj => h.exists_of_mem_holes hj
  generalize holes slots = js at hall
  induction js with
  | nil => exact ⟨[], rfl⟩
  | cons j js ih =>
    obtain ⟨a, ha⟩ := hall j List.mem_cons_self
    obtain ⟨opened, hopened⟩ := ih fun k hk => hall k (List.mem_cons_of_mem _ hk)
    exact ⟨a :: opened, by rw [List.mapM_cons, ha, hopened]; rfl⟩

/-! ### The second pass -/

/-- The second pass stands between `done` and `todo`; the rows left are right for the keys at their
positions, which are those of the slots that are still open. -/
structure Filling (R : α → β → Prop) (keys : List α) (rows : List (β × ℕ))
    (done todo : List (ℕ × Option β)) : Prop where
  probed : Probed R keys (done ++ todo)
  length : (done ++ todo).length = keys.length
  filled : ∀ slot ∈ done, slot.2.isSome
  rows : List.Forall₂ (fun row j => row.2 = j ∧ ∃ a, keys[j]? = some a ∧ R a row.1) rows
    (holes todo)

namespace Filling

variable {rows : List (β × ℕ)}

/-- The rows for the open slots are those of their keys. -/
theorem start (h : Probed R keys slots) (hlen : slots.length = keys.length) {opened : List α}
    {bs : List β} (hopened : (holes slots).mapM (fun j => keys[j]?) = some opened)
    (hbs : List.Forall₂ R opened bs) : Filling R keys (bs.zip (holes slots)) [] slots where
  probed := h
  length := hlen
  filled _ hslot := nomatch hslot
  rows := by
    generalize holes slots = js at hopened
    induction js generalizing opened bs with
    | nil =>
      rw [List.zip_nil_right]
      exact .nil
    | cons j js ih =>
      rw [List.mapM_cons] at hopened
      obtain ⟨a, ha, hopened⟩ := Option.bind_eq_some_iff.1 hopened
      obtain ⟨rest, hrest, hopened⟩ := Option.bind_eq_some_iff.1 hopened
      obtain rfl : a :: rest = opened := Option.some.inj hopened
      cases hbs with
      | cons hb hbs => exact .cons ⟨rfl, a, ha, hb⟩ (ih hbs hrest)

/-- The next slot is resolved already. -/
theorem keep (h : Filling R keys rows done ((j, some b) :: todo)) :
    Filling R keys rows (done ++ [(j, some b)]) todo where
  probed := by simpa using h.probed
  length := by simpa using h.length
  filled slot hslot := by
    rcases List.mem_append.1 hslot with hslot | hslot
    · exact h.filled slot hslot
    · rw [List.mem_singleton.1 hslot]
      rfl
  rows := holes_cons_some (j := j) (b := b) ▸ h.rows

/-- The next slot is open, and the next row is meant for it. -/
theorem fill {i : ℕ} (h : Filling R keys ((b, i) :: rows) done ((j, none) :: todo)) :
    i = j ∧ ∃ a, keys[i]? = some a ∧ R a b ∧
      Filling R keys rows (done ++ [(j, some b)]) todo := by
  have hrows := h.rows
  rw [holes_cons_none] at hrows
  obtain ⟨⟨rfl, a, ha, hR⟩, hrest⟩ := List.forall₂_cons.1 hrows
  refine ⟨rfl, a, ha, hR, ?_, ?_, fun slot hslot => ?_, hrest⟩
  · simpa using h.probed.set ha hR
  · simpa using h.length
  · rcases List.mem_append.1 hslot with hslot | hslot
    · exact h.filled slot hslot
    · rw [List.mem_singleton.1 hslot]
      rfl

/-- There is a row for every open slot. -/
theorem rows_ne_nil (h : Filling R keys rows done ((j, none) :: todo)) : rows ≠ [] := by
  rintro rfl
  have hrows := h.rows
  rw [holes_cons_none] at hrows
  cases hrows

/-- **At the end the slots hold right values for the keys, in order.** -/
theorem values (h : Filling R keys rows done []) :
    ∃ bs, done.mapM Prod.snd = some bs ∧ List.Forall₂ R keys bs := by
  have hprobed := h.probed
  have hlen := h.length
  rw [List.append_nil] at hprobed hlen
  exact hprobed.values hlen h.filled

end Filling

end OxEmbed.Holes

import Mathlib.Data.List.Induction
import Mathlib.Data.List.Perm.Subperm
import Mathlib.Order.Lattice

/-!
# Cutting a sorted list into bands

Items come in the order of their keys, the largest first. A loop collects them in a band as long as
the first item of the band fits with the next one, and starts a new band when it does not. Whether
two items fit is a relation on keys that holds for closer keys when it holds for more distant ones.

The first items of any two of the bands do not fit. So no two of them share a group, however the
items are grouped, and there are no fewer groups than bands.

## Main definitions

* `bandStep`, `bands` : the loop and the bands that it leaves.
* `Banded` : any two items of a group fit.

## Main results

* `flatten_bands` : the bands are the items, in their order.
* `banded_of_mem_bands`, `ne_nil_of_mem_bands` : each is a group of items that fit, and not empty.
* `length_bands_le` : no grouping into groups of items that fit has fewer groups.
-/

namespace OxEmbed.Bands

variable {ι K : Type} (fits : K → K → Prop) [DecidableRel fits] (key : ι → K)

/-! ### The loop -/

/-- The state of the loop: the finished bands, the current one and the key of its first item. -/
abbrev State (ι K : Type) := List (List ι) × List ι × K

/-- The body of the loop. -/
def bandStep (st : State ι K) (i : ι) : State ι K :=
  match st with
  | (groups, [], _) => (groups, [i], key i)
  | (groups, j :: current, widest) =>
    if fits widest (key i) then (groups, (j :: current) ++ [i], widest)
    else (groups ++ [j :: current], [i], key i)

/-- The bands of a state: the finished ones and the current one, if it is not empty. -/
def bandsOf : State ι K → List (List ι)
  | (groups, [], _) => groups
  | (groups, j :: current, _) => groups ++ [j :: current]

/-- The bands of a list. -/
def bands (start : K) (order : List ι) : List (List ι) :=
  bandsOf (order.foldl (bandStep fits key) ([], [], start))

/-- Any two items of a group fit. -/
def Banded (group : List ι) : Prop := ∀ i ∈ group, ∀ j ∈ group, fits (key i) (key j)

/-- The first items of the bands. -/
def leaders (groups : List (List ι)) : List ι := groups.filterMap List.head?

/-- No two of the items fit. -/
def Spread (items : List ι) : Prop := items.Pairwise fun i j => ¬ fits (key i) (key j)

/-- The state after the items `done`: the bands hold them in order, none is empty, the items of each
fit, and the first items are spread. The current band is empty at the start only, and the widest key
is that of its first item. -/
structure Cut (done : List ι) (st : State ι K) : Prop where
  flatten : (bandsOf st).flatten = done
  nonempty : [] ∉ bandsOf st
  banded : ∀ group ∈ bandsOf st, Banded fits key group
  spread : Spread fits key (leaders (bandsOf st))
  start : st.2.1 = [] → st.1 = []
  widest : ∀ i, st.2.1.head? = some i → st.2.2 = key i

/-- What the relation needs: a key fits with itself, and closer keys fit when more distant ones
do. -/
structure Closeness [LE K] : Prop where
  refl : ∀ k, fits k k
  mono : ∀ {w w' k k'}, fits w k → w' ≤ w → k ≤ k' → fits w' k'

variable {fits key}

omit [DecidableRel fits] in
theorem leaders_append (groups groups' : List (List ι)) :
    leaders (groups ++ groups') = leaders groups ++ leaders groups' :=
  List.filterMap_append

omit [DecidableRel fits] in
theorem mem_flatten_of_mem_leaders {groups : List (List ι)} {i : ι} (hi : i ∈ leaders groups) :
    i ∈ groups.flatten := by
  obtain ⟨group, hgroup, hhead⟩ := List.mem_filterMap.1 hi
  exact List.mem_flatten.2 ⟨group, hgroup, List.mem_of_mem_head? hhead⟩

omit [DecidableRel fits] in
theorem length_leaders {groups : List (List ι)} (h : [] ∉ groups) :
    (leaders groups).length = groups.length := by
  induction groups with
  | nil => rfl
  | cons group groups ih =>
    rw [List.mem_cons, not_or] at h
    obtain ⟨i, group, rfl⟩ := List.exists_cons_of_ne_nil (Ne.symm h.1)
    have hcons : leaders ((i :: group) :: groups) = i :: leaders groups := rfl
    rw [hcons, List.length_cons, List.length_cons, ih h.2]

/-! ### Groups that fit -/

omit [DecidableRel fits] in
/-- Spread items are in different groups, so there are as many groups. -/
theorem length_le_of_spread {items : List ι} (hspread : Spread fits key items)
    {groups : List (List ι)} (hcover : ∀ i ∈ items, ∃ group ∈ groups, i ∈ group)
    (hbanded : ∀ group ∈ groups, Banded fits key group) : items.length ≤ groups.length := by
  have hplace : ∀ i : ι, ∃ k, i ∈ items → k < groups.length ∧ ∀ group, groups[k]? = some group →
      i ∈ group := by
    intro i
    by_cases hi : i ∈ items
    · obtain ⟨group, hgroup, hmem⟩ := hcover i hi
      obtain ⟨k, hk, rfl⟩ := List.mem_iff_getElem.1 hgroup
      refine ⟨k, fun _ => ⟨hk, fun group hget => ?_⟩⟩
      rw [List.getElem?_eq_getElem hk] at hget
      exact Option.some.inj hget ▸ hmem
    · exact ⟨0, fun h => absurd h hi⟩
  choose place hplace using hplace
  have hnodup : (items.map place).Nodup := by
    refine List.pairwise_map.2 (hspread.imp_of_mem fun {i j} hi hj hnot heq => hnot ?_)
    obtain ⟨hk, hget⟩ := hplace i hi
    obtain ⟨-, hget'⟩ := hplace j hj
    have hgroup := List.getElem?_eq_getElem hk
    exact hbanded _ (List.getElem_mem hk) i (hget _ hgroup) j (hget' _ (heq ▸ hgroup))
  have hsub : items.map place ⊆ List.range groups.length := by
    intro k hk
    obtain ⟨i, hi, rfl⟩ := List.mem_map.1 hk
    exact List.mem_range.2 (hplace i hi).1
  have hle := (List.subperm_of_subset hnodup hsub).length_le
  rwa [List.length_map, List.length_range] at hle

/-! ### What a step keeps -/

section Steps

variable [LinearOrder K] (hclose : Closeness fits) {done : List ι} {st : State ι K} {i : ι}

omit [DecidableRel fits] [LinearOrder K] in
theorem cut_start (start : K) : Cut fits key [] (([], [], start) : State ι K) where
  flatten := rfl
  nonempty := List.not_mem_nil
  banded := fun _ h => absurd h List.not_mem_nil
  spread := .nil
  start := fun _ => rfl
  widest := fun _ h => absurd h (Option.some_ne_none _).symm

include hclose

omit [DecidableRel fits] in
/-- A band stays one with a smaller item that fits with its first one. -/
theorem Banded.concat {j : ι} {current : List ι} (hband : Banded fits key (j :: current))
    (hfirst : ∀ a ∈ j :: current, key a ≤ key j) (hle : ∀ a ∈ j :: current, key i ≤ key a)
    (hfits : fits (key j) (key i)) : Banded fits key ((j :: current) ++ [i]) := by
  intro a ha b hb
  rcases List.mem_append.1 ha with ha | ha
  · rcases List.mem_append.1 hb with hb | hb
    · exact hband a ha b hb
    · rw [List.mem_singleton.1 hb]
      exact hclose.mono hfits (hfirst a ha) le_rfl
  · rw [List.mem_singleton.1 ha]
    rcases List.mem_append.1 hb with hb | hb
    · exact hclose.mono (hclose.refl (key b)) (hle b hb) le_rfl
    · rw [List.mem_singleton.1 hb]
      exact hclose.refl _

section Band

variable {groups : List (List ι)} {current : List ι} {j : ι} {widest : K}
  (h : Cut fits key done (groups, j :: current, widest))

include h

omit [DecidableRel fits] [LinearOrder K] hclose in
theorem Cut.flatten_append : groups.flatten ++ (j :: current) = done := by
  rw [← h.flatten, bandsOf, List.flatten_append, List.flatten_singleton]

omit [DecidableRel fits] hclose in
/-- The first item of the current band has the largest key of it. -/
theorem Cut.le_widest (hdone : done.Pairwise fun a b => key b ≤ key a) :
    ∀ a ∈ j :: current, key a ≤ key j := by
  rw [← h.flatten_append] at hdone
  intro a ha
  rcases List.mem_cons.1 ha with rfl | ha
  · exact le_rfl
  · exact List.rel_of_pairwise_cons (List.pairwise_append.1 hdone).2.1 ha

omit [DecidableRel fits] hclose in
/-- The first items of the bands have no smaller key than that of the current one. -/
theorem Cut.widest_le (hdone : done.Pairwise fun a b => key b ≤ key a) :
    ∀ a ∈ leaders (groups ++ [j :: current]), key j ≤ key a := by
  rw [← h.flatten_append] at hdone
  intro a ha
  rcases List.mem_append.1 (leaders_append groups _ ▸ ha) with ha | ha
  · exact (List.pairwise_append.1 hdone).2.2 a (mem_flatten_of_mem_leaders ha) j
      List.mem_cons_self
  · rw [List.mem_singleton.1 ha]

omit [DecidableRel fits] in
/-- An item that fits joins the current band, whose first item stays the same. -/
theorem Cut.join (hdone : done.Pairwise fun a b => key b ≤ key a)
    (hle : ∀ a ∈ done, key i ≤ key a) (hfits : fits widest (key i)) :
    Cut fits key (done ++ [i]) (groups, (j :: current) ++ [i], widest) := by
  have hbands : bandsOf (groups, (j :: current) ++ [i], widest) =
      groups ++ [(j :: current) ++ [i]] := rfl
  have hlead : leaders (groups ++ [(j :: current) ++ [i]]) =
      leaders (groups ++ [j :: current]) := by
    rw [leaders_append, leaders_append]
    rfl
  refine ⟨?_, ?_, ?_, ?_, nofun, fun k hk => h.widest k hk⟩
  · rw [hbands, List.flatten_append, List.flatten_singleton, ← h.flatten_append, List.append_assoc]
  · rw [hbands]
    intro hmem
    rcases List.mem_append.1 hmem with hmem | hmem
    · exact h.nonempty (List.mem_append_left _ hmem)
    · exact absurd (List.mem_singleton.1 hmem) nofun
  · intro group hgroup
    rw [hbands] at hgroup
    rcases List.mem_append.1 hgroup with hgroup | hgroup
    · exact h.banded group (List.mem_append_left _ hgroup)
    · obtain rfl := List.mem_singleton.1 hgroup
      have hband : Banded fits key (j :: current) :=
        h.banded _ (List.mem_append_right _ List.mem_cons_self)
      refine hband.concat hclose (h.le_widest hdone) (fun a ha => hle a ?_) ?_
      · exact h.flatten_append ▸ List.mem_append_right _ ha
      · rwa [← h.widest j rfl]
  · rw [hbands, hlead]
    exact h.spread

omit [DecidableRel fits] in
/-- An item that does not fit starts a band, and its key is too far from those of all the first
items. -/
theorem Cut.open (hdone : done.Pairwise fun a b => key b ≤ key a)
    (hfits : ¬ fits widest (key i)) :
    Cut fits key (done ++ [i]) (groups ++ [j :: current], [i], key i) := by
  have hbands : bandsOf (groups ++ [j :: current], [i], key i) =
      (groups ++ [j :: current]) ++ [[i]] := rfl
  refine ⟨?_, ?_, ?_, ?_, nofun, fun k hk => ?_⟩
  · rw [hbands, List.flatten_append, List.flatten_append, List.flatten_singleton, h.flatten_append]
    rfl
  · rw [hbands]
    intro hmem
    rcases List.mem_append.1 hmem with hmem | hmem
    · exact h.nonempty hmem
    · exact absurd (List.mem_singleton.1 hmem) nofun
  · intro group hgroup
    rw [hbands] at hgroup
    rcases List.mem_append.1 hgroup with hgroup | hgroup
    · exact h.banded group hgroup
    · intro a ha b hb
      rw [List.mem_singleton.1 hgroup] at ha hb
      rw [List.mem_singleton.1 ha, List.mem_singleton.1 hb]
      exact hclose.refl _
  · rw [Spread, hbands, leaders_append]
    refine List.pairwise_append.2
      ⟨h.spread, List.pairwise_singleton _ _, fun a ha b hb hab => hfits ?_⟩
    rw [List.mem_singleton.1 hb] at hab
    have hwidest : widest = key j := h.widest j rfl
    rw [hwidest]
    exact hclose.mono hab (h.widest_le hdone a ha) le_rfl
  · rw [← Option.some.inj hk]

end Band

/-- **One item more**, whose key is not larger than those before it. -/
theorem Cut.step (h : Cut fits key done st)
    (hsorted : (done ++ [i]).Pairwise fun a b => key b ≤ key a) :
    Cut fits key (done ++ [i]) (bandStep fits key st i) := by
  obtain ⟨groups, current, widest⟩ := st
  obtain ⟨hdone, -, hlast⟩ := List.pairwise_append.1 hsorted
  cases current with
  | nil =>
    -- the first item
    obtain rfl : groups = [] := h.start rfl
    obtain rfl : [] = done := h.flatten
    refine ⟨rfl, by simp [bandStep, bandsOf], ?_, List.pairwise_singleton _ _, nofun, ?_⟩
    · intro group hgroup a ha b hb
      obtain rfl := List.mem_singleton.1 hgroup
      rw [List.mem_singleton.1 ha, List.mem_singleton.1 hb]
      exact hclose.refl _
    · intro k hk
      rw [← Option.some.inj hk]
      rfl
  | cons j current =>
    rw [bandStep]
    split
    next hfits =>
      exact h.join hclose hdone (fun a ha => hlast a ha i (List.mem_singleton_self i)) hfits
    next hfits => exact h.open hclose hdone hfits

/-- The state after a sorted list. -/
theorem cut_foldl (start : K) {order : List ι}
    (hsorted : order.Pairwise fun a b => key b ≤ key a) :
    Cut fits key order (order.foldl (bandStep fits key) ([], [], start)) := by
  induction order using List.reverseRecOn with
  | nil => exact cut_start start
  | append_singleton order i ih =>
    rw [List.foldl_append]
    exact (ih (List.pairwise_append.1 hsorted).1).step hclose hsorted

end Steps

/-! ### The bands of a sorted list -/

section Bands

variable [LinearOrder K] (hclose : Closeness fits) {start : K} {order : List ι}

include hclose

theorem flatten_bands (start : K) (hsorted : order.Pairwise fun a b => key b ≤ key a) :
    (bands fits key start order).flatten = order :=
  (cut_foldl hclose start hsorted).flatten

theorem ne_nil_of_mem_bands (hsorted : order.Pairwise fun a b => key b ≤ key a) :
    [] ∉ bands fits key start order :=
  (cut_foldl hclose start hsorted).nonempty

theorem banded_of_mem_bands (hsorted : order.Pairwise fun a b => key b ≤ key a) {group : List ι}
    (hgroup : group ∈ bands fits key start order) : Banded fits key group :=
  (cut_foldl hclose start hsorted).banded group hgroup

/-- **No grouping of the items into groups that fit has fewer groups than there are bands.** -/
theorem length_bands_le (hsorted : order.Pairwise fun a b => key b ≤ key a)
    {groups : List (List ι)} (hcover : ∀ i ∈ order, ∃ group ∈ groups, i ∈ group)
    (hbanded : ∀ group ∈ groups, Banded fits key group) :
    (bands fits key start order).length ≤ groups.length := by
  have hcut := cut_foldl hclose start hsorted
  have hle := length_le_of_spread hcut.spread (fun i hi => hcover i ?_) hbanded
  · rwa [length_leaders hcut.nonempty] at hle
  · exact hcut.flatten ▸ mem_flatten_of_mem_leaders hi

end Bands

end OxEmbed.Bands

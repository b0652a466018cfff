import Mathlib.Data.Finset.Basic
import Mathlib.Data.Finset.Dedup
import Mathlib.Data.List.Induction
import Mathlib.Logic.Function.Basic

/-!
# Maps that keep the last item of a key

A loop puts items into a map, each under its key if it has one, and an item replaces an earlier one
with the same key. The map depends on the order of the items exactly when two items share a key.

## Main definitions

* `insertAll` : the map after the loop.
* `Enumerates` : an order of the items of a set.

## Main results

* `insertAll_isSome_iff`, `of_insertAll` : the keys of the map and its items.
* `insertAll_eq_iff` : when all orders give the same map.
-/

namespace OxEmbed.LastSeen

variable {α K : Type*} [DecidableEq K] (key : α → Option K)

/-- The body of the loop. -/
def insertItem (out : K → Option α) (a : α) : K → Option α :=
  match key a with
  | some k => Function.update out k (some a)
  | none => out

/-- The map after the items of a list, in their order. -/
def insertAll (order : List α) : K → Option α := order.foldl (insertItem key) fun _ => none

/-- The list has the items of the set, each once. -/
def Enumerates (order : List α) (items : Finset α) : Prop :=
  order.Nodup ∧ ∀ a, a ∈ order ↔ a ∈ items

variable {key} {order order' : List α} {items : Finset α} {out : K → Option α} {a b : α} {k : K}

theorem insertItem_apply (out : K → Option α) (a : α) (k : K) :
    insertItem key out a k = if key a = some k then some a else out k := by
  rw [insertItem]
  cases hkey : key a with
  | none => rw [if_neg (Option.some_ne_none k).symm]
  | some j =>
    by_cases hjk : k = j
    · subst hjk
      rw [if_pos rfl]
      exact Function.update_self ..
    · rw [if_neg (fun h => hjk (Option.some.inj h).symm)]
      exact Function.update_of_ne hjk ..

theorem insertAll_concat (order : List α) (a : α) (k : K) :
    insertAll key (order ++ [a]) k = if key a = some k then some a else insertAll key order k := by
  rw [insertAll, List.foldl_append]
  exact insertItem_apply _ a k

/-- **An item of the map is one of the list, under its own key.** -/
theorem of_insertAll (h : insertAll key order k = some a) : a ∈ order ∧ key a = some k := by
  induction order using List.reverseRecOn with
  | nil => cases h
  | append_singleton order b ih =>
    rw [insertAll_concat] at h
    split at h
    next hb =>
      obtain rfl := Option.some.inj h
      exact ⟨List.mem_append_right _ List.mem_cons_self, hb⟩
    next =>
      obtain ⟨hmem, hkey⟩ := ih h
      exact ⟨List.mem_append_left _ hmem, hkey⟩

/-- **The map has every key of an item.** -/
theorem insertAll_isSome_iff :
    (insertAll key order k).isSome ↔ ∃ a ∈ order, key a = some k := by
  induction order using List.reverseRecOn with
  | nil => exact ⟨fun h => (nomatch h), fun ⟨_, h, _⟩ => absurd h List.not_mem_nil⟩
  | append_singleton order b ih =>
    rw [insertAll_concat]
    split
    next hb =>
      exact ⟨fun _ => ⟨b, List.mem_append_right _ List.mem_cons_self, hb⟩, fun _ => rfl⟩
    next hb =>
      rw [ih]
      constructor
      · rintro ⟨a, ha, hkey⟩
        exact ⟨a, List.mem_append_left _ ha, hkey⟩
      · rintro ⟨a, ha, hkey⟩
        rcases List.mem_append.1 ha with ha | ha
        · exact ⟨a, ha, hkey⟩
        · rw [List.mem_singleton] at ha
          exact absurd (ha ▸ hkey) hb

/-- Without two items of one key, the items determine the map. -/
theorem insertAll_eq_of_mem_iff (hmem : ∀ a, a ∈ order ↔ a ∈ order')
    (hkey : ∀ a ∈ order, ∀ b ∈ order, ∀ k, key a = some k → key b = some k → a = b) :
    insertAll key order = insertAll key order' := by
  funext k
  cases h : insertAll key order k with
  | none =>
    symm
    rw [← Option.not_isSome_iff_eq_none, insertAll_isSome_iff]
    rintro ⟨a, ha, hk⟩
    have hsome : (insertAll key order k).isSome := insertAll_isSome_iff.2 ⟨a, (hmem a).2 ha, hk⟩
    rw [h] at hsome
    cases hsome
  | some a =>
    obtain ⟨ha, hka⟩ := of_insertAll h
    obtain ⟨b, hb⟩ := Option.isSome_iff_exists.1
      (insertAll_isSome_iff.2 ⟨a, (hmem a).1 ha, hka⟩ : (insertAll key order' k).isSome)
    obtain ⟨hmemb, hkb⟩ := of_insertAll hb
    rw [hb, hkey a ha b ((hmem b).2 hmemb) k hka hkb]

/-- A set can be enumerated with any of its items at the end. -/
theorem exists_enumerates_concat [DecidableEq α] (ha : a ∈ items) :
    ∃ order, Enumerates (order ++ [a]) items := by
  refine ⟨(items.erase a).toList, ?_, fun b => ?_⟩
  · refine List.Nodup.append (Finset.nodup_toList _) (List.nodup_singleton a) ?_
    intro b hb hb'
    rw [List.mem_singleton] at hb'
    subst hb'
    exact Finset.notMem_erase b items (Finset.mem_toList.1 hb)
  · rw [List.mem_append, Finset.mem_toList, List.mem_singleton, Finset.mem_erase]
    by_cases hba : b = a
    · subst hba
      exact ⟨fun _ => ha, fun _ => .inr rfl⟩
    · exact ⟨fun h => (h.resolve_right hba).2, fun h => .inl ⟨hba, h⟩⟩

/-- **All orders of some items give the same map exactly when no two of them share a key.** -/
theorem insertAll_eq_iff [DecidableEq α] :
    (∀ order order', Enumerates order items → Enumerates order' items →
      insertAll key order = insertAll key order') ↔
      ∀ a ∈ items, ∀ b ∈ items, ∀ k, key a = some k → key b = some k → a = b := by
  constructor
  · intro hsame a ha b hb k hka hkb
    obtain ⟨order, horder⟩ := exists_enumerates_concat ha
    obtain ⟨order', horder'⟩ := exists_enumerates_concat hb
    have h := congrFun (hsame _ _ horder horder') k
    rw [insertAll_concat, insertAll_concat, if_pos hka, if_pos hkb] at h
    exact Option.some.inj h
  · intro hkey order order' horder horder'
    refine insertAll_eq_of_mem_iff (fun a => (horder.2 a).trans (horder'.2 a).symm) ?_
    intro a ha b hb
    exact hkey a ((horder.2 a).1 ha) b ((horder.2 b).1 hb)

end OxEmbed.LastSeen

import Mathlib.Data.List.Basic
import Mathlib.Algebra.Order.Group.Nat
import Mathlib.Data.Int.Basic
import Mathlib.Data.List.Forall2

/-!
# Arrays of several dimensions

A matrix stored row by row in one list, and a strided view: the shape, the distance between
neighbours along each axis, and the element at each distance from the first one. Rows of a view
that are contiguous in memory are also given as slices.

## Main definitions

* `Array2`, `Array2.fromShapeVec`, `Array2.axisIter` : matrices and their rows.
* `ArrayViewD`, `ArrayViewD.axis0`, `ArrayViewD.get?` : views, their subviews along the first
  axis, and their elements.
* `ArrayViewD.iter`, `ArrayViewD.toSlice` : the elements of a view with one axis.

## Main results

* `Array2.getElem?_row` : the element of a row stands at its place in the list.
* `Array2.axisIter_of_flatten` : the rows of a matrix that was written row after row.
* `ArrayViewD.toSlice_eq_some` : a slice holds the elements of the view.
* `ArrayViewD.exists_get?` : the elements in bounds.
* `ArrayViewD.getElem?_iter` : the elements of a row of a row.
-/

namespace OxEmbed

/-! ### Matrices -/

/-- A matrix stored row by row. -/
structure Array2 (α : Type) where
  rows : ℕ
  cols : ℕ
  data : List α
  length_data : data.length = rows * cols
  deriving DecidableEq

namespace Array2

variable {α : Type} {rows cols i j : ℕ} {data : List α}

/-- A matrix of a given shape from its elements, or the text of the error. -/
def fromShapeVec (rows cols : ℕ) (data : List α) : Except String (Array2 α) :=
  if h : data.length = rows * cols then .ok ⟨rows, cols, data, h⟩
  else if data.length < rows * cols then .error "ShapeError/OutOfBounds: out of bounds indexing"
  else .error "ShapeError/IncompatibleShape: incompatible shapes"

theorem fromShapeVec_of_eq (h : data.length = rows * cols) :
    fromShapeVec rows cols data = .ok ⟨rows, cols, data, h⟩ := dif_pos h

/-- The elements of a row. -/
def row (a : Array2 α) (i : ℕ) : List α := (a.data.drop (i * a.cols)).take a.cols

/-- The rows, in their order. -/
def axisIter (a : Array2 α) : List (List α) := (List.range a.rows).map a.row

/-- The element in a row and a column, if the matrix has them. -/
def get? (a : Array2 α) (i j : ℕ) : Option α :=
  if i < a.rows ∧ j < a.cols then a.data[i * a.cols + j]? else none

theorem getElem?_row (a : Array2 α) (i j : ℕ) :
    (a.row i)[j]? = if j < a.cols then a.data[i * a.cols + j]? else none := by
  rw [row, List.getElem?_take, List.getElem?_drop]

theorem get?_eq_row (a : Array2 α) (hi : i < a.rows) : a.get? i j = (a.row i)[j]? := by
  rw [get?, getElem?_row]
  simp only [hi, true_and]

/-- A matrix whose elements are some lists one after another has these lists as its rows. -/
theorem row_of_flatten {a : Array2 α} {ls : List (List α)} {l : List α}
    (hdata : a.data = ls.flatten) (hlen : ∀ l ∈ ls, l.length = a.cols) (hl : ls[i]? = some l) :
    a.row i = l := by
  rw [row, hdata]
  clear hdata
  induction ls generalizing i with
  | nil => cases hl
  | cons k ls ih =>
    have hk := hlen k List.mem_cons_self
    match i with
    | 0 =>
      obtain rfl : k = l := Option.some.inj hl
      rw [Nat.zero_mul, List.drop_zero, List.flatten_cons, ← hk, List.take_left]
    | i + 1 =>
      have hdrop : (k ++ ls.flatten).drop ((i + 1) * a.cols) = ls.flatten.drop (i * a.cols) := by
        rw [List.drop_append, List.drop_of_length_le (by rw [hk, Nat.add_mul]; omega),
          List.nil_append, hk, Nat.add_mul, Nat.one_mul, Nat.add_sub_cancel]
      rw [List.flatten_cons, hdrop]
      exact ih (fun l hl => hlen l (List.mem_cons_of_mem _ hl)) hl

/-- The rows of such a matrix. -/
theorem axisIter_of_flatten {a : Array2 α} {ls : List (List α)} (hdata : a.data = ls.flatten)
    (hrows : a.rows = ls.length) (hlen : ∀ l ∈ ls, l.length = a.cols) : a.axisIter = ls := by
  refine List.ext_getElem? fun i => ?_
  rw [axisIter, List.getElem?_map, hrows]
  by_cases hi : i < ls.length
  · rw [List.getElem?_range hi, Option.map_some, row_of_flatten hdata hlen
      (List.getElem?_eq_getElem hi), List.getElem?_eq_getElem hi]
  · rw [List.getElem?_eq_none (by simpa using hi), List.getElem?_eq_none (by simpa using hi),
      Option.map_none]

end Array2

/-! ### Views -/

/-- A view with any number of axes, each with its length and its stride; `elem` gives the element
at a distance from the first. -/
structure ArrayViewD (α : Type) where
  axes : List (ℕ × ℤ)
  elem : ℤ → α

namespace ArrayViewD

variable {α : Type} {v w : ArrayViewD α} {i n : ℕ} {dims : List ℕ}

/-- The length of each axis. -/
def shape (v : ArrayViewD α) : List ℕ := v.axes.map Prod.fst

/-- The view at one index of the first axis, if the index is in bounds. -/
def axis0 (v : ArrayViewD α) (i : ℕ) : Option (ArrayViewD α) :=
  match v.axes with
  | [] => none
  | (n, stride) :: axes => if i < n then some ⟨axes, fun o => v.elem (i * stride + o)⟩ else none

/-- The element at one index for each axis. -/
def get? (v : ArrayViewD α) : List ℕ → Option α
  | [] => if v.axes = [] then some (v.elem 0) else none
  | i :: ix => (v.axis0 i).bind fun v => v.get? ix

/-- The views along the first axis, in their order. -/
def axisIter (v : ArrayViewD α) : List (ArrayViewD α) :=
  (List.range (v.shape.headD 0)).filterMap v.axis0

/-- The elements of a view with one axis. -/
def iter (v : ArrayViewD α) : List α :=
  (List.range (v.shape.headD 0)).filterMap fun k => v.get? [k]

/-- The elements of a view with one axis as a slice of memory, if they are contiguous. -/
def toSlice (v : ArrayViewD α) : Option (List α) :=
  match v.axes with
  | [(n, stride)] =>
    if n ≤ 1 ∨ stride = 1 then some ((List.range n).map fun k : ℕ => v.elem k) else none
  | _ => none

theorem axis0_isSome (hshape : v.shape = n :: dims) : (v.axis0 i).isSome ↔ i < n := by
  obtain ⟨axes, elem⟩ := v
  match axes, hshape with
  | (n', stride) :: axes, hshape =>
    obtain ⟨rfl, -⟩ := List.cons.inj hshape
    simp only [axis0]
    split
    · simpa
    · simp_all

theorem shape_of_axis0 (h : v.axis0 i = some w) : w.shape = v.shape.tail := by
  obtain ⟨axes, elem⟩ := v
  match axes, h with
  | (n, stride) :: axes, h =>
    simp only [axis0] at h
    split at h
    · rw [← Option.some.inj h]
      rfl
    · cases h

/-- A function that is defined exactly below `n` lists its values. -/
theorem getElem?_filterMap_range {β : Type} {f : ℕ → Option β} (h : ∀ i, (f i).isSome ↔ i < n)
    (i : ℕ) : ((List.range n).filterMap f)[i]? = f i := by
  by_cases hn : 0 < n
  · obtain ⟨b, -⟩ := Option.isSome_iff_exists.1 ((h 0).2 hn)
    have hmap : (List.range n).filterMap f = (List.range n).map fun k => (f k).getD b := by
      rw [← List.filterMap_eq_map]
      refine List.filterMap_congr fun k hk => ?_
      obtain ⟨c, hc⟩ := Option.isSome_iff_exists.1 ((h k).2 (List.mem_range.1 hk))
      rw [Function.comp_apply, hc, Option.getD_some]
    rw [hmap, List.getElem?_map]
    by_cases hi : i < n
    · obtain ⟨c, hc⟩ := Option.isSome_iff_exists.1 ((h i).2 hi)
      rw [List.getElem?_range hi, Option.map_some, hc, Option.getD_some]
    · rw [List.getElem?_eq_none (by simpa using hi), Option.map_none]
      exact (Option.not_isSome_iff_eq_none.1 fun hs => hi ((h i).1 hs)).symm
  · obtain rfl : n = 0 := by omega
    exact (Option.not_isSome_iff_eq_none.1 fun hs => absurd ((h i).1 hs) (by omega)).symm

/-- The views along the first axis are all there. -/
theorem getElem?_axisIter (hshape : v.shape = n :: dims) (i : ℕ) :
    v.axisIter[i]? = v.axis0 i := by
  rw [axisIter, hshape, List.headD_cons]
  exact getElem?_filterMap_range (fun i => axis0_isSome hshape) i

theorem get?_isSome (hshape : v.shape = [n]) : (v.get? [i]).isSome ↔ i < n := by
  rw [← axis0_isSome hshape (i := i), get?]
  cases hw : v.axis0 i with
  | none => rfl
  | some w =>
    have hnil := shape_of_axis0 hw
    rw [hshape, List.tail_cons, shape, List.map_eq_nil_iff] at hnil
    simp [get?, hnil]

/-- An element stands at each list of indices in bounds. -/
theorem exists_get? {ix : List ℕ} (h : List.Forall₂ (· < ·) ix v.shape) :
    ∃ x, v.get? ix = some x := by
  induction ix generalizing v with
  | nil =>
    rw [List.forall₂_nil_left_iff, shape, List.map_eq_nil_iff] at h
    exact ⟨v.elem 0, if_pos h⟩
  | cons i ix ih =>
    obtain ⟨n, dims, hi, hdims, hshape⟩ := List.forall₂_cons_left_iff.1 h
    obtain ⟨w, hw⟩ := Option.isSome_iff_exists.1 ((axis0_isSome hshape (i := i)).2 hi)
    have hwshape : w.shape = dims := by rw [shape_of_axis0 hw, hshape, List.tail_cons]
    obtain ⟨x, hx⟩ := ih (v := w) (hwshape.symm ▸ hdims)
    exact ⟨x, by rw [get?, hw, Option.bind_some, hx]⟩

/-- The elements of a view with one axis, one by one. -/
theorem getElem?_iter (hshape : v.shape = [n]) (k : ℕ) : v.iter[k]? = v.get? [k] := by
  rw [iter, hshape, List.headD_cons]
  exact getElem?_filterMap_range (fun i => get?_isSome hshape) k

/-- A list has as many elements as it has places. -/
theorem length_eq_of_getElem? {β : Type} {l : List β} (h : ∀ i, l[i]?.isSome ↔ i < n) :
    l.length = n := by
  refine le_antisymm ?_ ?_
  · rw [← List.getElem?_eq_none_iff, ← Option.not_isSome_iff_eq_none, h]
    omega
  · by_contra hlt
    have hsome := (h l.length).2 (by omega)
    rw [List.getElem?_eq_none le_rfl] at hsome
    cases hsome

theorem length_iter (hshape : v.shape = [n]) : v.iter.length = n :=
  length_eq_of_getElem? fun i => by rw [getElem?_iter hshape, get?_isSome hshape]

theorem length_axisIter (hshape : v.shape = n :: dims) : v.axisIter.length = n :=
  length_eq_of_getElem? fun i => by rw [getElem?_axisIter hshape, axis0_isSome hshape]

/-- A slice holds the elements of the view. -/
theorem toSlice_eq_some {slc : List α} (h : v.toSlice = some slc) : slc = v.iter := by
  obtain ⟨axes, elem⟩ := v
  match axes, h with
  | [(n, stride)], h =>
    simp only [toSlice] at h
    split at h
    · rename_i hcontig
      obtain rfl := Option.some.inj h
      refine List.ext_getElem? fun k => ?_
      rw [getElem?_iter (n := n) rfl, List.getElem?_map]
      by_cases hk : k < n
      · rw [List.getElem?_range hk]
        have hoffset : (k : ℤ) * stride + 0 = k := by
          rcases hcontig with hlen | hstride
          · obtain rfl : k = 0 := by omega
            simp
          · simp [hstride]
        simp only [get?, axis0, if_pos hk, Option.bind_some, Option.map_some, if_pos, hoffset]
      · rw [List.getElem?_eq_none (by simpa using hk)]
        simp [get?, axis0, hk]
    · cases h

end ArrayViewD

end OxEmbed

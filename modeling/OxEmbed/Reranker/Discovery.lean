import OxEmbed.Library.LastSeen
import OxEmbed.Library.Numeral
import OxEmbed.Reranker.Basic
import OxEmbed.Startup.Config

/-!
# The static-shape files of a reranker

`discover_static_shape_files` of `model_reranker/load.rs` scans the directory of a model for the
files `model_quantized_static_b<N>.onnx`, in the order in which the directory is read, and maps the
batch sizes `N` to the files. The file without a number stands for the batch size one if no other
file does.

The number is read by the parser of unsigned numbers, which takes leading zeros and a plus sign. So
several names can stand for one batch size; the file that is seen last is kept, and which one this
is depends on the order of the directory.

All files are in the directory of the model, and a file is given by its name. Entries whose names
are not UTF-8 are skipped, and left out here.

## Main definitions

* `batchOf` : the batch size that a file name stands for.
* `discoverStaticShapeFiles`, `loadStaticSessionPools` : the map, and the pools that are loaded.
* `OrderFree` : the map is the same for every order of the directory, and it maps the batch sizes of
  the files to files of these sizes.

## Main results

* `batchOf_eq_some_iff` : which names stand for a batch size.
* `discover_spec` : what the map is for any order.
* `orderFree_iff` : exactly when the map does not depend on the order.
-/

namespace OxEmbed.Reranker

open Text LastSeen Startup

/-! ### The files -/

/-- `PREFIX_EXPLICIT`. -/
def prefixExplicit : String := "model_quantized_static_b"

/-- `LEGACY_FILENAME`. -/
def legacyFilename : String := "model_quantized_static.onnx"

def onnxSuffix : String := ".onnx"

/-- The text between the prefix and `.onnx`, if the name has both. -/
def carve (fileName : String) : Option String :=
  let name := fileName.toList
  if prefixExplicit.toList <+: name ∧ onnxSuffix.toList <:+ name then
    some (.ofList ((name.drop prefixExplicit.length).take
      (name.length - onnxSuffix.length - prefixExplicit.length)))
  else none

/-- The body of the scan. -/
def scanEntry (out : ℕ → Option String) (fileName : String) : ℕ → Option String :=
  match carve fileName with
  | none => out
  | some mid =>
    match parseUnsigned usizeMax mid with
    -- no graph has a batch of zero
    | .ok 0 => out
    | .ok n => Function.update out n (some fileName)
    | .error _ => out

/-- `discover_static_shape_files`, on the names in the order of the directory, or on a directory
that cannot be read. -/
def discoverStaticShapeFiles (entries : Option (List String)) : ℕ → Option String :=
  match entries with
  | none => fun _ => none
  | some names =>
    let out := names.foldl scanEntry fun _ => none
    -- the unsuffixed file, unless there is an explicit one
    if legacyFilename ∈ names then
      match out 1 with
      | none => Function.update out 1 (some legacyFilename)
      | some replaced =>
        Function.update (Function.update out 1 (some legacyFilename)) 1 (some replaced)
    else out

/-- `STATIC_POOL_SIZE_PER_SHAPE`. -/
def staticPoolSizePerShape : ℕ := 2

/-- `load_static_session_pools`: the sizes of the pools; `builds` are the files from which sessions
can be built. -/
def loadStaticSessionPools (builds : String → Bool) (entries : Option (List String)) :
    ℕ → Option ℕ :=
  fun batch => (discoverStaticShapeFiles entries batch).bind fun path =>
    if builds path then some staticPoolSizePerShape else none

/-- The batch size of an explicit file. -/
def batchOf (fileName : String) : Option ℕ :=
  match carve fileName with
  | none => none
  | some mid =>
    match parseUnsigned usizeMax mid with
    | .ok 0 => none
    | .ok n => some n
    | .error _ => none

/-- The name stands for the batch size: between the prefix and `.onnx` there is a numeral of it,
with a plus sign or without. -/
def DenotesBatch (fileName : String) (n : ℕ) : Prop :=
  ∃ digits, (fileName.toList = prefixExplicit.toList ++ digits ++ onnxSuffix.toList ∨
      fileName.toList = prefixExplicit.toList ++ '+' :: digits ++ onnxSuffix.toList) ∧
    IsNumeral digits ∧ numeral digits = n ∧ 0 < n ∧ n ≤ usizeMax

/-! ### Batch sizes -/

theorem length_prefixExplicit : prefixExplicit.toList.length = prefixExplicit.length := rfl

/-- A name with the prefix and the suffix: they do not overlap, as the prefix has no dot. -/
theorem carve_eq_some_iff {fileName mid : String} : carve fileName = some mid ↔
    fileName.toList = prefixExplicit.toList ++ mid.toList ++ onnxSuffix.toList := by
  rw [carve]
  constructor
  · intro h
    split at h
    next hboth =>
      obtain ⟨⟨rest, hpre⟩, front, hsuf⟩ := hboth
      have hsplit : ∃ middle, fileName.toList =
          prefixExplicit.toList ++ middle ++ onnxSuffix.toList := by
        rw [← hpre] at hsuf ⊢
        rcases List.append_eq_append_iff.1 hsuf with ⟨middle, hp, hs⟩ | ⟨middle, hf, hs⟩
        · -- the suffix would start in the prefix
          cases middle with
          | nil => exact ⟨[], by rw [List.append_nil, ← List.nil_append rest, ← hs]⟩
          | cons c middle =>
            have hdot : c = '.' := (List.cons.inj hs).1.symm
            have hmem : '.' ∈ prefixExplicit.toList := by
              rw [hp, hdot]
              exact List.mem_append_right _ List.mem_cons_self
            exact absurd hmem (by decide)
        · exact ⟨middle, by rw [hs, List.append_assoc]⟩
      obtain ⟨middle, hmiddle⟩ := hsplit
      have hlen : fileName.toList.length - onnxSuffix.length - prefixExplicit.length =
          middle.length := by
        have hsuffix : onnxSuffix.toList.length = onnxSuffix.length := rfl
        have hprefix := length_prefixExplicit
        rw [hmiddle, List.length_append, List.length_append]
        omega
      rw [hlen, hmiddle, List.append_assoc, ← length_prefixExplicit, List.drop_left,
        List.take_left] at h
      rw [← Option.some.inj h, hmiddle, String.toList_ofList]
    next => cases h
  · intro h
    have hpre : prefixExplicit.toList <+: fileName.toList :=
      ⟨mid.toList ++ onnxSuffix.toList, by rw [h, List.append_assoc]⟩
    have hsuf : onnxSuffix.toList <:+ fileName.toList := ⟨_, h.symm⟩
    have hlen : fileName.toList.length - onnxSuffix.length - prefixExplicit.length =
        mid.toList.length := by
      have hsuffix : onnxSuffix.toList.length = onnxSuffix.length := rfl
      have hprefix := length_prefixExplicit
      rw [h, List.length_append, List.length_append]
      omega
    rw [if_pos ⟨hpre, hsuf⟩, hlen, h, List.append_assoc, ← length_prefixExplicit, List.drop_left,
      List.take_left, String.ofList_toList]

/-- **The names that stand for a batch size.** -/
theorem batchOf_eq_some_iff {fileName : String} {n : ℕ} :
    batchOf fileName = some n ↔ DenotesBatch fileName n := by
  constructor
  · intro h
    rw [batchOf] at h
    split at h
    · cases h
    next mid hmid =>
      rw [carve_eq_some_iff] at hmid
      split at h
      · cases h
      next n hne hparse =>
        cases h
        obtain ⟨digits, hmid', hnum, hn, hle⟩ := parseUnsigned_eq_ok_iff.1 hparse
        refine ⟨digits, ?_, hnum, hn, Nat.pos_of_ne_zero fun hzero => hne (hzero ▸ rfl), hle⟩
        rw [hmid]
        exact hmid'.imp (fun h => by rw [h]) (fun h => by rw [h])
      · cases h
  · rintro ⟨digits, hname, hnum, hn, hpos, hle⟩
    obtain ⟨mid, hmid, hread⟩ : ∃ mid, carve fileName = some mid ∧
        (mid.toList = digits ∨ mid.toList = '+' :: digits) := by
      rcases hname with hname | hname
      · exact ⟨.ofList digits, carve_eq_some_iff.2 (by rw [hname, String.toList_ofList]),
          .inl String.toList_ofList⟩
      · exact ⟨.ofList ('+' :: digits), carve_eq_some_iff.2 (by rw [hname, String.toList_ofList]),
          .inr String.toList_ofList⟩
    have hparse : parseUnsigned usizeMax mid = .ok n :=
      parseUnsigned_eq_ok_iff.2 ⟨digits, hread, hnum, hn, hle⟩
    obtain ⟨m, rfl⟩ : ∃ m, n = m + 1 := ⟨n - 1, by omega⟩
    rw [batchOf, hmid]
    dsimp only
    rw [hparse]
    rfl

theorem batchOf_legacyFilename : batchOf legacyFilename = none := by decide

/-- The scan puts each file under its batch size. -/
theorem scanEntry_eq : scanEntry = insertItem batchOf := by
  funext out fileName
  rw [scanEntry, insertItem, batchOf]
  cases carve fileName with
  | none => rfl
  | some mid =>
    dsimp only
    cases parseUnsigned usizeMax mid with
    | error _ => rfl
    | ok n => cases n <;> rfl

/-! ### The map -/

section Map

variable {order order' : List String} {names : Finset String} {n : ℕ} {path : String}

/-- The unsuffixed file fills the place of the batch size one when it is left free. -/
theorem discover_apply (order : List String) (n : ℕ) :
    discoverStaticShapeFiles (some order) n =
      if n = 1 ∧ legacyFilename ∈ order ∧ insertAll batchOf order 1 = none then
        some legacyFilename
      else insertAll batchOf order n := by
  have hscan : order.foldl scanEntry (fun _ => none) = insertAll batchOf order := by
    rw [scanEntry_eq, insertAll]
  rw [discoverStaticShapeFiles, hscan]
  by_cases hlegacy : legacyFilename ∈ order
  · rw [if_pos hlegacy]
    cases hone : insertAll batchOf order 1 with
    | none =>
      by_cases hn : n = 1
      · subst hn
        rw [if_pos ⟨rfl, hlegacy, rfl⟩]
        exact Function.update_self ..
      · rw [if_neg (fun h => hn h.1)]
        exact Function.update_of_ne hn ..
    | some replaced =>
      rw [if_neg (fun h => Option.some_ne_none _ h.2.2)]
      dsimp only
      rw [Function.update_idem, ← hone, Function.update_eq_self]
  · rw [if_neg hlegacy, if_neg (fun h => hlegacy h.2.1)]

/-- An explicit file is in the map. -/
theorem discover_of_insertAll (h : insertAll batchOf order n = some path) :
    discoverStaticShapeFiles (some order) n = some path := by
  rw [discover_apply, if_neg, h]
  rintro ⟨rfl, -, hnone⟩
  rw [hnone] at h
  cases h

/-- The map for one order: every batch size is positive, and its file is one of the directory that
stands for it; the batch sizes of all files are there; and the unsuffixed file stands for the batch
size one only when no explicit file does. -/
structure Discovered (order : List String) : Prop where
  positive : ∀ n path, discoverStaticShapeFiles (some order) n = some path → 0 < n
  named : ∀ n path, discoverStaticShapeFiles (some order) n = some path →
    path ∈ order ∧ (DenotesBatch path n ∨ path = legacyFilename ∧ n = 1)
  explicit : ∀ path ∈ order, ∀ n, DenotesBatch path n →
    (discoverStaticShapeFiles (some order) n).isSome
  implicit : legacyFilename ∈ order → (discoverStaticShapeFiles (some order) 1).isSome
  legacy : discoverStaticShapeFiles (some order) 1 = some legacyFilename →
    ∀ path ∈ order, ¬ DenotesBatch path 1

/-- **What the map is, for any order.** -/
theorem discover_spec (order : List String) : Discovered order := by
  have hnamed : ∀ n path, discoverStaticShapeFiles (some order) n = some path →
      path ∈ order ∧ (DenotesBatch path n ∨ path = legacyFilename ∧ n = 1) := by
    intro n path h
    rw [discover_apply] at h
    split at h
    next hlegacy =>
      cases h
      exact ⟨hlegacy.2.1, .inr ⟨rfl, hlegacy.1⟩⟩
    next =>
      obtain ⟨hmem, hbatch⟩ := of_insertAll h
      exact ⟨hmem, .inl (batchOf_eq_some_iff.1 hbatch)⟩
  refine ⟨fun n path h => ?_, hnamed, fun path hpath n hn => ?_, fun hlegacy => ?_,
    fun h path hpath hone => ?_⟩
  · rcases (hnamed n path h).2 with ⟨_, _, _, _, hpos, _⟩ | ⟨-, rfl⟩
    · exact hpos
    · exact Nat.one_pos
  · obtain ⟨kept, hkept⟩ := Option.isSome_iff_exists.1
      (insertAll_isSome_iff.2 ⟨path, hpath, batchOf_eq_some_iff.2 hn⟩)
    rw [discover_of_insertAll hkept]
    rfl
  · rw [discover_apply]
    cases hone : insertAll batchOf order 1 with
    | none =>
      rw [if_pos ⟨rfl, hlegacy, rfl⟩]
      rfl
    | some kept =>
      rw [if_neg (fun h => Option.some_ne_none _ h.2.2)]
      rfl
  · -- an explicit file would be in its place
    obtain ⟨kept, hkept⟩ := Option.isSome_iff_exists.1
      (insertAll_isSome_iff.2 ⟨path, hpath, batchOf_eq_some_iff.2 hone⟩)
    rw [discover_of_insertAll hkept] at h
    obtain rfl := Option.some.inj h
    have hbatch := (of_insertAll hkept).2
    rw [batchOf_legacyFilename] at hbatch
    cases hbatch

/-- Two orders of the same files give the same map exactly when the scan keeps the same files. -/
theorem discover_eq_iff (hmem : ∀ a, a ∈ order ↔ a ∈ order') :
    discoverStaticShapeFiles (some order) = discoverStaticShapeFiles (some order') ↔
      insertAll batchOf order = insertAll batchOf order' := by
  constructor
  · intro h
    funext n
    have hsome : (insertAll batchOf order n).isSome ↔ (insertAll batchOf order' n).isSome := by
      simp only [insertAll_isSome_iff, hmem]
    cases ha : insertAll batchOf order n with
    | none =>
      cases hb : insertAll batchOf order' n with
      | none => rfl
      | some b =>
        rw [ha, hb] at hsome
        exact absurd (hsome.2 rfl) Bool.false_ne_true
    | some a =>
      cases hb : insertAll batchOf order' n with
      | none =>
        rw [ha, hb] at hsome
        exact absurd (hsome.1 rfl) Bool.false_ne_true
      | some b =>
        have heq := congrFun h n
        rwa [discover_of_insertAll ha, discover_of_insertAll hb] at heq
  · intro h
    funext n
    simp only [discover_apply, h, hmem]

/-- The map is the same for every order of the directory, and it is as it should be. -/
structure OrderFree (names : Finset String) : Prop where
  same : ∀ order order', Enumerates order names → Enumerates order' names →
    discoverStaticShapeFiles (some order) = discoverStaticShapeFiles (some order')
  discovered : ∀ order, Enumerates order names → Discovered order

/-- The pools have two sessions each, and are for positive batch sizes. -/
theorem loadStaticSessionPools_spec {builds : String → Bool} {count : ℕ}
    (h : loadStaticSessionPools builds (some order) n = some count) :
    count = 2 ∧ 0 < n ∧ ∃ path ∈ order, builds path ∧
      discoverStaticShapeFiles (some order) n = some path := by
  obtain ⟨path, hpath, hcount⟩ := Option.bind_eq_some_iff.1 h
  split at hcount
  next hbuilds =>
    have hspec := discover_spec order
    exact ⟨(Option.some.inj hcount).symm, hspec.positive n path hpath, path,
      (hspec.named n path hpath).1, hbuilds, hpath⟩
  next => cases hcount

end Map

/-- **The map does not depend on the order of the directory exactly when no two files stand for the
same batch size.** -/
theorem orderFree_iff (names : Finset String) :
    OrderFree names ↔
      ∀ a ∈ names, ∀ b ∈ names, ∀ n, DenotesBatch a n → DenotesBatch b n → a = b := by
  have hkeys : (∀ a ∈ names, ∀ b ∈ names, ∀ n, DenotesBatch a n → DenotesBatch b n → a = b) ↔
      ∀ order order', Enumerates order names → Enumerates order' names →
        insertAll batchOf order = insertAll batchOf order' := by
    simp only [insertAll_eq_iff, batchOf_eq_some_iff]
  have hmem {order order' : List String} (ho : Enumerates order names)
      (ho' : Enumerates order' names) (a : String) : a ∈ order ↔ a ∈ order' :=
    (ho.2 a).trans (ho'.2 a).symm
  rw [hkeys]
  constructor
  · intro h order order' ho ho'
    exact (discover_eq_iff (hmem ho ho')).1 (h.same order order' ho ho')
  · intro h
    exact ⟨fun order order' ho ho' => (discover_eq_iff (hmem ho ho')).2 (h order order' ho ho'),
      fun order _ => discover_spec order⟩

/-- A directory with the numbers `1` and `01`: the file that is seen last is kept. -/
theorem not_orderFree_leadingZero :
    discoverStaticShapeFiles
        (some ["model_quantized_static_b1.onnx", "model_quantized_static_b01.onnx"]) 1 =
      some "model_quantized_static_b01.onnx" ∧
    discoverStaticShapeFiles
        (some ["model_quantized_static_b01.onnx", "model_quantized_static_b1.onnx"]) 1 =
      some "model_quantized_static_b1.onnx" ∧
    ¬ OrderFree {"model_quantized_static_b1.onnx", "model_quantized_static_b01.onnx"} := by
  have hfirst : discoverStaticShapeFiles
      (some ["model_quantized_static_b1.onnx", "model_quantized_static_b01.onnx"]) 1 =
    some "model_quantized_static_b01.onnx" := by decide +kernel
  have hlast : discoverStaticShapeFiles
      (some ["model_quantized_static_b01.onnx", "model_quantized_static_b1.onnx"]) 1 =
    some "model_quantized_static_b1.onnx" := by decide +kernel
  refine ⟨hfirst, hlast, fun h => ?_⟩
  have horder : Enumerates ["model_quantized_static_b1.onnx", "model_quantized_static_b01.onnx"]
      {"model_quantized_static_b1.onnx", "model_quantized_static_b01.onnx"} :=
    ⟨by decide, by simp⟩
  have horder' : Enumerates ["model_quantized_static_b01.onnx", "model_quantized_static_b1.onnx"]
      {"model_quantized_static_b1.onnx", "model_quantized_static_b01.onnx"} :=
    ⟨by decide, by simp [or_comm]⟩
  have hsame := congrFun (h.same _ _ horder horder') 1
  rw [hfirst, hlast] at hsame
  exact absurd (Option.some.inj hsame) (by decide)

end OxEmbed.Reranker

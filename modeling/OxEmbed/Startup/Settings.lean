import OxEmbed.Library.FirstSeen
import OxEmbed.Library.Numeral
import OxEmbed.OnnxCache.Basic
import OxEmbed.Startup.Config

/-!
# Numbers from the environment

The settings of `config.rs` and `worker_waiters.rs` that cannot make the startup fail: a variable
that does not hold a positive number falls back to the next source, and in the end to a default.
The sizes of the batches that a model is warmed up with are a list of such numbers.

## Main definitions

* `positiveNumber`, `positiveOr` : a positive number, and the default in its place.
* `resolveEmbedPoolSizeForModel`, `resolveMaxWaitersForModel` : the settings of one model.
* `parseWarmupBatchSizes` : the sizes of the batches.
* `Denoted`, `Sizes` : the numbers that a list stands for, and the lists that can be read.

## Main results

* `positiveNumber_eq_some_iff` : when a text stands for a positive number.
* `warmup_sizes` : which sizes are read, and that they read back.
-/

namespace OxEmbed.Startup

open Text OnnxCache FirstSeen

/-! ### Positive numbers -/

/-- `s.trim().parse::<usize>()`, unless it is zero or fails. -/
def positiveNumber (raw : String) : Option ℕ :=
  match parseUnsigned usizeMax (trim raw) with
  | .ok 0 => none
  | .ok (n + 1) => some (n + 1)
  | .error _ => none

/-- A variable with a default for all other values. -/
def positiveOr (default : ℕ) : Option String → ℕ
  | none => default
  | some raw => (positiveNumber raw).getD default

def parseEmbedPoolSize : Option String → ℕ := positiveOr 1

def parseRerankerPoolSize : Option String → ℕ := positiveOr 1

def parseSpladePoolSize : Option String → ℕ := positiveOr 1

/-- `RERANKER_INTRA_THREADS` and `SPLADE_INTRA_THREADS`, which are not trimmed. -/
def parseIntraThreadsOr (default : ℕ) (raw : Option String) : ℕ :=
  ((raw.bind fun s => (parseUnsigned usizeMax s).toOption).filter (0 < ·)).getD default

/-- `resolve_embed_pool_size_for_model`; the mapping to upper case is a parameter. -/
def resolveEmbedPoolSizeForModel (toUppercase : String → String) (env : Env) (modelKey : String)
    (globalRaw : Option String) : ℕ :=
  match env ("EMBED_SESSION_POOL_SIZE_" ++ modelEnvKey toUppercase modelKey) with
  | some raw =>
    if trim raw = "" then parseEmbedPoolSize globalRaw else parseEmbedPoolSize (some (trim raw))
  | none => parseEmbedPoolSize globalRaw

def waitersPoolMultiplier : ℕ := 8

def waitersFloor : ℕ := 16

/-- `resolve_max_waiters_for_model`; the mapping to upper case is a parameter. -/
def resolveMaxWaitersForModel (toUppercase : String → String) (env : Env) (poolSize : ℕ)
    (modelName : String) : ℕ :=
  let formulaDefault := max (min (poolSize * waitersPoolMultiplier) usizeMax) waitersFloor
  match (env ("EMBED_MAX_WAITERS_" ++ modelEnvKey toUppercase modelName)).bind positiveNumber with
  | some n => n
  | none => positiveOr formulaDefault (env "EMBED_MAX_WAITERS")

section Numbers

variable {raw : String} {globalRaw : Option String} {n default : ℕ}
  {toUppercase : String → String} {env : Env}

/-- **A text stands for a positive number** when it is a numeral of it, apart from white space
around it. -/
theorem positiveNumber_eq_some_iff :
    positiveNumber raw = some n ↔ DenotesNumber usizeMax (trim raw) n ∧ 0 < n := by
  rw [← parseUnsigned_eq_ok_iff_denotesNumber, positiveNumber]
  split
  next h =>
    refine ⟨fun h => (nomatch h), fun ⟨hn, hpos⟩ => ?_⟩
    rw [h] at hn
    exact absurd (Except.ok.inj hn) (Nat.ne_of_lt hpos)
  next m h =>
    rw [h, Option.some_inj, Except.ok.injEq]
    exact ⟨fun h => ⟨h, h ▸ Nat.succ_pos m⟩, And.left⟩
  next h =>
    rw [h]
    exact ⟨fun h => (nomatch h), fun ⟨h, _⟩ => (nomatch h)⟩

theorem pos_of_positiveNumber (h : n ∈ positiveNumber raw) : 0 < n :=
  (positiveNumber_eq_some_iff.1 h).2

theorem le_of_positiveNumber (h : n ∈ positiveNumber raw) : n ≤ usizeMax :=
  (positiveNumber_eq_some_iff.1 h).1.le

theorem one_le_usizeMax : 1 ≤ usizeMax := Nat.le_of_ble_eq_true rfl

/-- A setting is positive, and within its type, when its default is. -/
theorem positiveOr_mem_Icc (hpos : 0 < default) (hle : default ≤ usizeMax) (raw : Option String) :
    0 < positiveOr default raw ∧ positiveOr default raw ≤ usizeMax := by
  cases raw with
  | none => exact ⟨hpos, hle⟩
  | some s =>
    rw [positiveOr]
    cases h : positiveNumber s with
    | none => exact ⟨hpos, hle⟩
    | some n => exact ⟨pos_of_positiveNumber h, le_of_positiveNumber h⟩

theorem resolveEmbedPoolSizeForModel_mem_Icc (modelKey : String) :
    0 < resolveEmbedPoolSizeForModel toUppercase env modelKey globalRaw ∧
      resolveEmbedPoolSizeForModel toUppercase env modelKey globalRaw ≤ usizeMax := by
  have hparse := positiveOr_mem_Icc one_pos one_le_usizeMax
  rw [resolveEmbedPoolSizeForModel]
  split
  · split
    · exact hparse _
    · exact hparse _
  · exact hparse _

theorem parseIntraThreadsOr_mem_Icc (hpos : 0 < default) (hle : default ≤ usizeMax)
    (raw : Option String) :
    0 < parseIntraThreadsOr default raw ∧ parseIntraThreadsOr default raw ≤ usizeMax := by
  rw [parseIntraThreadsOr]
  cases hset : (raw.bind fun s => (parseUnsigned usizeMax s).toOption).filter (0 < ·) with
  | none => exact ⟨hpos, hle⟩
  | some n =>
    obtain ⟨hread, hn⟩ := Option.filter_eq_some_iff.1 hset
    obtain ⟨s, -, hs⟩ := Option.bind_eq_some_iff.1 hread
    refine ⟨of_decide_eq_true hn, ?_⟩
    exact (parseUnsigned_eq_ok_iff_denotesNumber.1 (ok_of_toOption hs)).le

/-- A worker always lets a request wait. -/
theorem resolveMaxWaitersForModel_pos (poolSize : ℕ) (modelName : String) :
    0 < resolveMaxWaitersForModel toUppercase env poolSize modelName := by
  rw [resolveMaxWaitersForModel]
  split
  next n h =>
    obtain ⟨s, -, hs⟩ := Option.bind_eq_some_iff.1 h
    exact pos_of_positiveNumber hs
  next =>
    refine (positiveOr_mem_Icc ?_ ?_ _).1
    · rw [waitersFloor]
      omega
    · rw [waitersFloor, usizeMax]
      omega

end Numbers

/-! ### The sizes of the batches for warming up -/

/-- A piece of the list that is not a positive number is skipped. -/
def warmupPiece (st : Finset ℕ × List ℕ) (piece : String) : Finset ℕ × List ℕ :=
  if trim piece = "" then st
  else
    match parseUnsigned usizeMax (trim piece) with
    | .ok 0 => st
    | .ok (n + 1) => visit st (n + 1)
    | .error _ => st

/-- `parse_warmup_batch_sizes`, without the log. -/
def parseWarmupBatchSizes (raw : Option String) (defaults : List ℕ) : List ℕ :=
  match raw with
  | none => defaults
  | some s =>
    let out := ((split ',' s).foldl warmupPiece (∅, [])).2
    if out = [] then defaults else out

/-- The positive numbers that the pieces of a list stand for. -/
def numbers (s : String) : List ℕ := (split ',' s).filterMap positiveNumber

/-- The list stands for these sizes: its positive numbers, each where it occurs first, or the
defaults if it has none. -/
def Denoted (raw : Option String) (defaults out : List ℕ) : Prop :=
  match raw with
  | none => out = defaults
  | some s => if numbers s = [] then out = defaults else Occurrences (numbers s) out

/-- The sizes that can be read. -/
structure Sizes (l : List ℕ) : Prop where
  ne_nil : l ≠ []
  nodup : l.Nodup
  pos : ∀ n ∈ l, 0 < n
  le : ∀ n ∈ l, n ≤ usizeMax

section Warmup

variable {raw : Option String} {s piece : String} {defaults out l : List ℕ} {n : ℕ}
  {st : Finset ℕ × List ℕ}

theorem warmupPiece_eq :
    warmupPiece st piece = ((positiveNumber piece).map (visit st)).getD st := by
  rw [warmupPiece, positiveNumber]
  split
  next hempty =>
    rw [hempty]
    rfl
  next hempty => split <;> rfl

/-- The loop goes through the positive numbers of the list. -/
theorem foldl_warmupPiece (pieces : List String) :
    pieces.foldl warmupPiece st = (pieces.filterMap positiveNumber).foldl visit st := by
  induction pieces generalizing st with
  | nil => rfl
  | cons piece pieces ih =>
    rw [List.foldl_cons, ih, warmupPiece_eq, List.filterMap_cons]
    cases positiveNumber piece with
    | none => rfl
    | some n => rfl

theorem firstSeen_eq_nil_iff : firstSeen l = [] ↔ l = [] := by
  have h := occurrences_firstSeen l
  simp only [List.eq_nil_iff_forall_not_mem, h.mem]

theorem parseWarmupBatchSizes_eq (s : String) (defaults : List ℕ) :
    parseWarmupBatchSizes (some s) defaults =
      if numbers s = [] then defaults else firstSeen (numbers s) := by
  have hout : ((split ',' s).foldl warmupPiece (∅, [])).2 = firstSeen (numbers s) := by
    rw [foldl_warmupPiece]
    rfl
  simp only [parseWarmupBatchSizes, hout, firstSeen_eq_nil_iff]

theorem parseWarmupBatchSizes_eq_iff :
    parseWarmupBatchSizes raw defaults = out ↔ Denoted raw defaults out := by
  cases raw with
  | none => exact eq_comm
  | some s =>
    rw [parseWarmupBatchSizes_eq, Denoted]
    split
    · exact eq_comm
    · exact ⟨fun h => h ▸ occurrences_firstSeen _, (occurrences_firstSeen _).eq⟩

/-- What is read are sizes. -/
theorem Denoted.sizes (h : Denoted raw defaults out) (hdefaults : Sizes defaults) : Sizes out := by
  cases raw with
  | none => exact h ▸ hdefaults
  | some s =>
    rw [Denoted] at h
    split at h
    · exact h ▸ hdefaults
    next hne =>
      have hnumber (n : ℕ) (hn : n ∈ out) : ∃ piece, positiveNumber piece = some n := by
        obtain ⟨piece, -, hpiece⟩ := List.mem_filterMap.1 ((h.mem n).1 hn)
        exact ⟨piece, hpiece⟩
      obtain ⟨n, hn⟩ := List.exists_mem_of_ne_nil _ hne
      exact {
        ne_nil := List.ne_nil_of_mem ((h.mem n).2 hn)
        nodup := h.nodup
        pos := fun n hn => (hnumber n hn).elim fun _ => pos_of_positiveNumber
        le := fun n hn => (hnumber n hn).elim fun _ => le_of_positiveNumber }

/-- The numbers of a printed list. -/
theorem numbers_join (h : Sizes l) : numbers (join ',' (l.map toString)) = l := by
  have hcomma : ∀ p ∈ l.map toString, ',' ∉ p.toList := by
    intro p hp hc
    obtain ⟨n, -, rfl⟩ := List.mem_map.1 hp
    exact absurd (isDigit_of_mem_toString hc) (by decide)
  have hread : ∀ n ∈ l, (positiveNumber ∘ toString) n = some n := by
    intro n hn
    rw [Function.comp_apply, positiveNumber_eq_some_iff, trim_toString]
    exact ⟨denotesNumber_toString (h.le n hn), h.pos n hn⟩
  rw [numbers, split_join (by simpa using h.ne_nil) hcomma, List.filterMap_map]
  rw [List.filterMap_congr hread, List.filterMap_some]

/-- **Sizes that are printed read back.** -/
theorem Sizes.parse_join (h : Sizes l) :
    parseWarmupBatchSizes (some (join ',' (l.map toString))) defaults = l := by
  rw [parseWarmupBatchSizes_eq, numbers_join h, if_neg h.ne_nil, firstSeen_of_nodup h.nodup]

/-- **Which sizes are read**, and that they read back: the sizes are those that the list stands for,
they can always be used, and exactly those are read again when they are printed. -/
theorem warmup_sizes (hdefaults : Sizes defaults) (raw : Option String) :
    (∀ out, parseWarmupBatchSizes raw defaults = out ↔ Denoted raw defaults out) ∧
      Sizes (parseWarmupBatchSizes raw defaults) ∧
      parseWarmupBatchSizes
        (some (join ',' ((parseWarmupBatchSizes raw defaults).map toString))) defaults =
          parseWarmupBatchSizes raw defaults := by
  have hsizes := (parseWarmupBatchSizes_eq_iff.1 rfl : Denoted raw defaults _).sizes hdefaults
  exact ⟨fun out => parseWarmupBatchSizes_eq_iff, hsizes, hsizes.parse_join⟩

/-- The defaults of the embedding models, and a list with a repetition, a zero and a typing
error. -/
theorem warmup_sizes_embed : Sizes [1, 8] ∧
    parseWarmupBatchSizes (some "3, 5,0,3,x5") [1, 8] = [3, 5] ∧
    ((∀ out, parseWarmupBatchSizes (some "3, 5,0,3,x5") [1, 8] = out ↔
        Denoted (some "3, 5,0,3,x5") [1, 8] out) ∧
      Sizes (parseWarmupBatchSizes (some "3, 5,0,3,x5") [1, 8]) ∧
      parseWarmupBatchSizes
        (some (join ',' ((parseWarmupBatchSizes (some "3, 5,0,3,x5") [1, 8]).map toString)))
          [1, 8] = parseWarmupBatchSizes (some "3, 5,0,3,x5") [1, 8]) := by
  have hdefaults : Sizes [1, 8] := ⟨by simp, by simp, by simp, by simp [usizeMax]⟩
  exact ⟨hdefaults, by decide +kernel, warmup_sizes hdefaults _⟩

end Warmup

end OxEmbed.Startup

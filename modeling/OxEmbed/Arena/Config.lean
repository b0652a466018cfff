import Mathlib.Data.List.TakeWhile
import OxEmbed.Library.Numeral
import OxEmbed.OnnxCache.Basic

/-!
# The limits of the shared arena

`arena.rs` reads the limits of the memory arena from the environment. A size is a number of bytes,
or a number with a suffix that stands for a power of `1024`. A value that cannot be read is a panic
at the start of the process, whose text names the variable; so is a combination of values that the
arena could not work with.

The mapping to upper case and the quoting of a text in a message are parameters, as is the largest
value of `usize`.

## Main definitions

* `parseBytesWithSuffix` : the parser of a size.
* `DenotesBytes` : which number of bytes a text stands for.
* `ArenaCfg`, `initArenaConfigForModel` : the configuration, which has the invariants that the
  start-up checks.

## Main results

* `parseBytesWithSuffix_eq_ok_iff` : the parser accepts its grammar, and a product is never cut off.
* `initArenaConfigForModel_eq_ok_iff` : what every setting comes from.
-/

namespace OxEmbed.Arena

open Text Startup OnnxCache

/-! ### Sizes -/

/-- The multiplier of a suffix in upper case. -/
def multiplierOf (suffix : String) : Option ℕ :=
  if suffix = "" ∨ suffix = "B" then some 1
  else if suffix = "K" ∨ suffix = "KIB" then some 1024
  else if suffix = "M" ∨ suffix = "MIB" then some (1024 * 1024)
  else if suffix = "G" ∨ suffix = "GIB" then some (1024 * 1024 * 1024)
  else none

section Parser

variable (toUppercase debug : String → String) (usizeMax : ℕ)

/-- `parse_bytes_with_suffix`; an error is a panic with this text. -/
def parseBytesWithSuffix (envKey s : String) : Except String ℕ :=
  -- the text is split at the first character that is not a digit
  let digits := s.toList.takeWhile isDigit
  let suffixRaw := String.ofList (s.toList.dropWhile isDigit)
  let suffix := toUppercase (trim suffixRaw)
  match parseUnsigned u64Max (.ofList digits) with
  | .error _ =>
    .error (envKey ++ " must be a non-negative integer with optional suffix " ++
      s!"(B/K/KiB/M/MiB/G/GiB), got {debug s}")
  | .ok mantissa =>
    match multiplierOf suffix with
    | none =>
      .error (envKey ++ s!": unrecognised size suffix {debug suffixRaw}; " ++
        "accepted: B, K, KiB, M, MiB, G, GiB")
    | some multiplier =>
      if mantissa * multiplier > u64Max then
        .error (envKey ++ s!": value {debug s} overflows usize")
      else if mantissa * multiplier > usizeMax then
        .error (envKey ++ s!": value {debug s} overflows usize on this platform")
      else .ok (mantissa * multiplier)

/-- `parse_usize_env`. -/
def parseUsizeEnv (env : Env) (key : String) (default : ℕ) : Except String ℕ :=
  match env key with
  | some v => parseBytesWithSuffix toUppercase debug usizeMax key (trim v)
  | none => .ok default

end Parser

/-- The suffixes and what they stand for. -/
def sizeSuffixes : List (String × ℕ) :=
  [("", 1), ("B", 1), ("K", 2 ^ 10), ("KIB", 2 ^ 10), ("M", 2 ^ 20), ("MIB", 2 ^ 20),
    ("G", 2 ^ 30), ("GIB", 2 ^ 30)]

/-- The text is a run of digits, not empty, and a suffix; the run and its product with the
multiplier fit in 64 bits, and the product, which is the number of bytes, in `usize`. -/
def DenotesBytes (toUppercase : String → String) (usizeMax : ℕ) (s : String) (n : ℕ) : Prop :=
  ∃ digits rest m, s.toList = digits ++ rest ∧ IsNumeral digits ∧ (∀ c ∈ rest.head?, ¬ isDigit c) ∧
    numeral digits < 2 ^ 64 ∧ (toUppercase (trim (.ofList rest)), m) ∈ sizeSuffixes ∧
      numeral digits * m < 2 ^ 64 ∧ numeral digits * m ≤ usizeMax ∧ n = numeral digits * m

/-- The match on the suffix is the table. -/
theorem multiplierOf_eq_some_iff {suffix : String} {m : ℕ} :
    multiplierOf suffix = some m ↔ (suffix, m) ∈ sizeSuffixes := by
  have hk : (2 : ℕ) ^ 10 = 1024 := rfl
  have hm : (2 : ℕ) ^ 20 = 1024 * 1024 := rfl
  have hg : (2 : ℕ) ^ 30 = 1024 * 1024 * 1024 := rfl
  rw [multiplierOf, sizeSuffixes, hk, hm, hg]
  simp only [List.mem_cons, Prod.mk.injEq, List.not_mem_nil, or_false]
  constructor
  · intro h
    split_ifs at h with h₁ h₂ h₃ h₄ <;> cases h
    · rcases h₁ with rfl | rfl <;> simp
    · rcases h₂ with rfl | rfl <;> simp
    · rcases h₃ with rfl | rfl <;> simp
    · rcases h₄ with rfl | rfl <;> simp
  · rintro (⟨rfl, rfl⟩ | ⟨rfl, rfl⟩ | ⟨rfl, rfl⟩ | ⟨rfl, rfl⟩ | ⟨rfl, rfl⟩ | ⟨rfl, rfl⟩ |
      ⟨rfl, rfl⟩ | ⟨rfl, rfl⟩) <;> decide

/-- A run of digits in front of a character that is none is what `takeWhile` takes. -/
theorem span_isDigit {digits rest : List Char} (hdigits : ∀ c ∈ digits, isDigit c)
    (hrest : ∀ c ∈ rest.head?, ¬ isDigit c) :
    (digits ++ rest).takeWhile isDigit = digits ∧ (digits ++ rest).dropWhile isDigit = rest := by
  have hstop : rest.takeWhile isDigit = [] ∧ rest.dropWhile isDigit = rest := by
    cases rest with
    | nil => exact ⟨rfl, rfl⟩
    | cons c rest =>
      have hc := hrest c rfl
      exact ⟨List.takeWhile_cons_of_neg hc, List.dropWhile_cons_of_neg hc⟩
  rw [List.takeWhile_append_of_pos hdigits, List.dropWhile_append_of_pos hdigits, hstop.1, hstop.2,
    List.append_nil]
  exact ⟨rfl, rfl⟩

section Parser

variable {toUppercase debug : String → String} {usizeMax : ℕ} {envKey s : String} {n : ℕ}

/-- The digits of the text are read as a number of 64 bits. -/
theorem parse_digits_eq_ok_iff :
    parseUnsigned u64Max (.ofList (s.toList.takeWhile isDigit)) = .ok n ↔
      IsNumeral (s.toList.takeWhile isDigit) ∧ numeral (s.toList.takeWhile isDigit) = n ∧
        n ≤ u64Max := by
  rw [parseUnsigned_eq_ok_iff, String.toList_ofList]
  constructor
  · rintro ⟨digits, heq | heq, h⟩
    · rw [heq]
      exact h
    · have hplus := List.mem_takeWhile_imp (heq ▸ List.mem_cons_self : '+' ∈ s.toList.takeWhile _)
      exact absurd hplus (by decide)
  · intro h
    exact ⟨_, .inl rfl, h⟩

/-- **The parser accepts exactly its grammar**, and gives the number that the text stands for: it
never gives a smaller one. -/
theorem parseBytesWithSuffix_eq_ok_iff :
    parseBytesWithSuffix toUppercase debug usizeMax envKey s = .ok n ↔
      DenotesBytes toUppercase usizeMax s n := by
  have hu64 : u64Max + 1 = 2 ^ 64 := rfl
  constructor
  · intro h
    rw [parseBytesWithSuffix] at h
    split at h
    · cases h
    next mantissa hmantissa =>
      obtain ⟨hnum, rfl, hle⟩ := parse_digits_eq_ok_iff.1 hmantissa
      split at h
      · cases h
      next m hm =>
        split_ifs at h with hover hplatform
        cases h
        refine ⟨_, s.toList.dropWhile isDigit, m, List.takeWhile_append_dropWhile.symm, hnum, ?_,
          by omega, multiplierOf_eq_some_iff.1 hm, by omega, by omega, rfl⟩
        intro c hc
        rw [Option.mem_def, ← List.find?_not_eq_head?_dropWhile] at hc
        simpa using List.find?_some hc
  · rintro ⟨digits, rest, m, hs, hnum, hrest, hd, hm, hfits, husize, rfl⟩
    obtain ⟨htake, hdrop⟩ := span_isDigit hnum.2 hrest
    rw [← hs] at htake hdrop
    have hmantissa : parseUnsigned u64Max (.ofList (s.toList.takeWhile isDigit)) =
        .ok (numeral digits) := by
      rw [parse_digits_eq_ok_iff, htake]
      exact ⟨hnum, rfl, by omega⟩
    rw [parseBytesWithSuffix, hmantissa, hdrop, multiplierOf_eq_some_iff.2 hm]
    dsimp only
    rw [if_neg (by omega), if_neg (by omega)]

/-- **Every panic names the variable.** -/
theorem prefix_of_parseBytesWithSuffix {message : String}
    (h : parseBytesWithSuffix toUppercase debug usizeMax envKey s = .error message) :
    envKey.toList <+: message.toList := by
  rw [parseBytesWithSuffix] at h
  repeat' split at h
  all_goals
    cases h
    try simp only [String.toList_append, List.append_assoc, List.prefix_append]

end Parser

/-- **The parser of sizes.** It returns a number exactly for the texts of its grammar, and the
number is what the text stands for; for every other text it panics, and names the variable. -/
theorem parseBytesWithSuffix_spec (toUppercase debug : String → String) (usizeMax : ℕ)
    (envKey s : String) :
    (∀ n, parseBytesWithSuffix toUppercase debug usizeMax envKey s = .ok n ↔
        DenotesBytes toUppercase usizeMax s n) ∧
      ((∃ n, DenotesBytes toUppercase usizeMax s n) ∨
        ∃ message, parseBytesWithSuffix toUppercase debug usizeMax envKey s = .error message ∧
          envKey.toList <+: message.toList) := by
  refine ⟨fun n => parseBytesWithSuffix_eq_ok_iff, ?_⟩
  cases h : parseBytesWithSuffix toUppercase debug usizeMax envKey s with
  | ok n => exact .inl ⟨n, parseBytesWithSuffix_eq_ok_iff.1 h⟩
  | error message => exact .inr ⟨message, rfl, prefix_of_parseBytesWithSuffix h⟩

/-- The largest number of gibibytes that 64 bits hold, and one more. -/
example : (["17179869183 gib", "17179869184GiB", "+1", "12 34", "KiB", "64M"].map fun s =>
    (parseBytesWithSuffix (fun s => .ofList (s.toList.map Char.toUpper)) id (2 ^ 64 - 1) "KEY"
      s).toOption) =
      [some 18446744072635809792, none, none, none, none, some 67108864] := by decide

/-! ### The configuration -/

/-- `DEFAULT_MAX_MEM_BYTES`. -/
def defaultMaxMemBytes : ℕ := 6 * 1024 * 1024 * 1024

/-- `DEFAULT_INITIAL_CHUNK_BYTES`. -/
def defaultInitialChunkBytes : ℕ := 1024 * 1024

/-- `DEFAULT_MAX_DEAD_BYTES`. -/
def defaultMaxDeadBytes : ℕ := 64 * 1024 * 1024

/-- `DEFAULT_EXTEND_STRATEGY`. -/
def defaultExtendStrategy : ℤ := 1

/-- `ArenaCfg`; the arena fits its first block, and extends in one of the two ways. -/
@[ext]
structure ArenaCfg where
  maxMemBytes : ℕ
  initialChunkBytes : ℕ
  maxDeadBytes : ℕ
  extendStrategy : ℤ
  strategy : extendStrategy = 0 ∨ extendStrategy = 1
  firstChunk : initialChunkBytes ≤ maxMemBytes

/-- `str::parse::<i32>`, without the kind of the error. -/
def parseI32 (s : String) : Option ℤ :=
  match s.toList with
  | '-' :: c :: digits => (parseDigits (2 ^ 31) 0 (c :: digits)).toOption.map fun n => -(n : ℤ)
  | _ => (parseUnsigned (2 ^ 31 - 1) s).toOption.map Int.ofNat

/-- `parse_i32_env`. -/
def parseI32Env (debug : String → String) (env : Env) (key : String) (default : ℤ) :
    Except String ℤ :=
  match env key with
  | some v =>
    match parseI32 (trim v) with
    | some n => .ok n
    | none => .error (key ++ s!" must be an integer, got {debug v}")
  | none => .ok default

section Config

variable (toUppercase debug : String → String) (usizeMax : ℕ) (env : Env)

/-- The ceiling of the arena: the model's own variable, if there is a model and the variable is set,
or the variable for all models. -/
def maxMemBytesForModel (modelKey : String) : Except String ℕ :=
  let perModelKey := "EMBED_ARENA_MAX_MEM_BYTES_" ++ modelEnvKey toUppercase modelKey
  let shared :=
    parseUsizeEnv toUppercase debug usizeMax env "EMBED_ARENA_MAX_MEM_BYTES" defaultMaxMemBytes
  if modelKey = "" then shared
  else
    match env perModelKey with
    | some raw => parseBytesWithSuffix toUppercase debug usizeMax perModelKey (trim raw)
    | none => shared

/-- `init_arena_config_for_model`. -/
def initArenaConfigForModel (modelKey : String) : Except String ArenaCfg := do
  let maxMemBytes ← maxMemBytesForModel toUppercase debug usizeMax env modelKey
  let initialChunkBytes ← parseUsizeEnv toUppercase debug usizeMax env
    "EMBED_ARENA_INITIAL_CHUNK_BYTES" defaultInitialChunkBytes
  let maxDeadBytes ← parseUsizeEnv toUppercase debug usizeMax env
    "EMBED_ARENA_MAX_DEAD_BYTES" defaultMaxDeadBytes
  let extendStrategy ← parseI32Env debug env "EMBED_ARENA_EXTEND_STRATEGY" defaultExtendStrategy
  if hstrategy : extendStrategy = 0 ∨ extendStrategy = 1 then
    if hfirst : initialChunkBytes ≤ maxMemBytes then
      .ok ⟨maxMemBytes, initialChunkBytes, maxDeadBytes, extendStrategy, hstrategy, hfirst⟩
    else
      .error (s!"EMBED_ARENA_MAX_MEM_BYTES ({maxMemBytes}) must be >= " ++
        s!"EMBED_ARENA_INITIAL_CHUNK_BYTES ({initialChunkBytes})")
  else
    .error ("EMBED_ARENA_EXTEND_STRATEGY must be 0 (kNextPowerOfTwo) or " ++
      s!"1 (kSameAsRequested), got {extendStrategy}")

/-- `init_arena_config`. -/
def initArenaConfig : Except String ArenaCfg :=
  initArenaConfigForModel toUppercase debug usizeMax env ""

/-- What a variable for a size stands for: its text, or the default if it is not set. -/
def SizeSetting (key : String) (default n : ℕ) : Prop :=
  match env key with
  | some v => DenotesBytes toUppercase usizeMax (trim v) n
  | none => n = default

/-- What the ceiling of a model's arena stands for. -/
def MaxMemSetting (modelKey : String) (n : ℕ) : Prop :=
  let perModelKey := "EMBED_ARENA_MAX_MEM_BYTES_" ++ modelEnvKey toUppercase modelKey
  if modelKey ≠ "" ∧ (env perModelKey).isSome then
    SizeSetting toUppercase usizeMax env perModelKey 0 n
  else SizeSetting toUppercase usizeMax env "EMBED_ARENA_MAX_MEM_BYTES" defaultMaxMemBytes n

end Config

section Config

variable {toUppercase debug : String → String} {usizeMax : ℕ} {env : Env} {key modelKey : String}
  {default n : ℕ} {cfg : ArenaCfg}

theorem parseUsizeEnv_eq_ok_iff :
    parseUsizeEnv toUppercase debug usizeMax env key default = .ok n ↔
      SizeSetting toUppercase usizeMax env key default n := by
  rw [parseUsizeEnv, SizeSetting]
  cases env key with
  | none => exact ⟨fun h => (Except.ok.inj h).symm, fun h => congrArg _ (Eq.symm h)⟩
  | some v => exact parseBytesWithSuffix_eq_ok_iff

theorem maxMemBytesForModel_eq_ok_iff :
    maxMemBytesForModel toUppercase debug usizeMax env modelKey = .ok n ↔
      MaxMemSetting toUppercase usizeMax env modelKey n := by
  rw [maxMemBytesForModel, MaxMemSetting]
  by_cases hkey : modelKey = ""
  · rw [if_pos hkey, if_neg (fun h => h.1 hkey)]
    exact parseUsizeEnv_eq_ok_iff
  rw [if_neg hkey]
  cases hset : env ("EMBED_ARENA_MAX_MEM_BYTES_" ++ modelEnvKey toUppercase modelKey) with
  | none =>
    rw [if_neg (fun h => Bool.false_ne_true h.2)]
    exact parseUsizeEnv_eq_ok_iff
  | some raw =>
    rw [if_pos ⟨hkey, rfl⟩, SizeSetting, hset]
    exact parseBytesWithSuffix_eq_ok_iff

/-- **The start-up succeeds with a configuration exactly when its values are what the variables
stand for**; that the arena fits its first block is part of a configuration. -/
theorem initArenaConfigForModel_eq_ok_iff :
    initArenaConfigForModel toUppercase debug usizeMax env modelKey = .ok cfg ↔
      MaxMemSetting toUppercase usizeMax env modelKey cfg.maxMemBytes ∧
        SizeSetting toUppercase usizeMax env "EMBED_ARENA_INITIAL_CHUNK_BYTES"
          defaultInitialChunkBytes cfg.initialChunkBytes ∧
        SizeSetting toUppercase usizeMax env "EMBED_ARENA_MAX_DEAD_BYTES" defaultMaxDeadBytes
          cfg.maxDeadBytes ∧
        parseI32Env debug env "EMBED_ARENA_EXTEND_STRATEGY" defaultExtendStrategy =
          .ok cfg.extendStrategy := by
  simp only [initArenaConfigForModel, bind_eq_ok, parseUsizeEnv_eq_ok_iff,
    maxMemBytesForModel_eq_ok_iff]
  constructor
  · rintro ⟨maxMem, hmax, initial, hinitial, dead, hdead, strategy, hstrategy, h⟩
    split_ifs at h
    cases h
    exact ⟨hmax, hinitial, hdead, hstrategy⟩
  · rintro ⟨hmax, hinitial, hdead, hstrategy⟩
    refine ⟨_, hmax, _, hinitial, _, hdead, _, hstrategy, ?_⟩
    rw [dif_pos cfg.strategy, dif_pos cfg.firstChunk]

/-- **The defaults pass the checks**, for every model. -/
theorem initArenaConfigForModel_default (henv : ∀ key, env key = none) :
    ∃ cfg, initArenaConfigForModel toUppercase debug usizeMax env modelKey = .ok cfg ∧
      cfg.maxMemBytes = defaultMaxMemBytes ∧ cfg.initialChunkBytes = defaultInitialChunkBytes ∧
        cfg.maxDeadBytes = defaultMaxDeadBytes ∧ cfg.extendStrategy = defaultExtendStrategy := by
  refine ⟨⟨defaultMaxMemBytes, defaultInitialChunkBytes, defaultMaxDeadBytes,
    defaultExtendStrategy, .inr rfl, by decide⟩, ?_, rfl, rfl, rfl, rfl⟩
  simp [initArenaConfigForModel_eq_ok_iff, MaxMemSetting, SizeSetting, parseI32Env, henv]

end Config

end OxEmbed.Arena

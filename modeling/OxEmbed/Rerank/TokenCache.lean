import Mathlib.Data.List.Induction
import Mathlib.Logic.Function.Basic
import OxEmbed.Library.Text

/-!
# The token cache

`TokenCache` of `token_cache.rs`: the token ids of pairs of a query and a document, for each model.
The key of a pair is the hash of the bytes of the query, a NUL byte and the bytes of the document.
A cache of capacity `0` is disabled: it misses every look-up and drops every insert. An entry may be
evicted at any time.

The NUL byte separates the halves of a pair only as long as it is in neither of them. A query or a
document may contain it, and then the same bytes are the bytes of another pair as well.

## Main definitions

* `TokenCache`, `hashPair`, `get`, `insert`, `evict` : the cache.
* `Shifted` : the one pair is the other, split at a later NUL.
* `CacheOp`, `TokenCache.run` : a history of inserts and evictions.
* `lastInserted`, `lastWrite` : what a history inserted last, for a pair and under a key.

## Main results

* `hashPair_eq_iff` : which pairs have one key.
* `entry_run` : a look-up finds what was written last under its key.
* `lookups_faithful_iff` : exactly which sets of pairs a cache can tell apart.
-/

namespace OxEmbed.Rerank

open Text

variable {D : Type}

/-! ### Keys -/

/-- A key of the cache: the model name and the hash of a pair. -/
abbrev TokenCacheKey (D : Type) := String × D

/-- `hash_pair`. -/
def hashPair (sha256 : ByteArray → D) (query doc : String) : D :=
  sha256 (query.toUTF8 ++ ⟨#[0x00]⟩ ++ doc.toUTF8)

/-- The pair `p` is split at an earlier NUL of a text that is split at a later one in `p'`. -/
def Shifted (p p' : String × String) : Prop :=
  ∃ mid : String, p'.1 = p.1 ++ "\x00" ++ mid ∧ p.2 = mid ++ "\x00" ++ p'.2

/-- The bytes of a pair are those of one text. -/
theorem pairBytes_eq (query doc : String) :
    query.toUTF8 ++ ⟨#[0x00]⟩ ++ doc.toUTF8 = (query ++ "\x00" ++ doc).toUTF8 := by
  have hnul : ("\x00" : String).toByteArray = ⟨#[0x00]⟩ := rfl
  simp only [String.toUTF8, String.toByteArray_append, hnul]

theorem toList_joined (query doc : String) :
    (query ++ "\x00" ++ doc).toList = query.toList ++ '\x00' :: doc.toList := by
  simp [String.toList_append]

theorem shifted_iff {p p' : String × String} :
    Shifted p p' ↔ ∃ mid : List Char,
      p'.1.toList = p.1.toList ++ '\x00' :: mid ∧ p.2.toList = mid ++ '\x00' :: p'.2.toList := by
  constructor
  · rintro ⟨mid, hquery, hdoc⟩
    exact ⟨mid.toList, by rw [hquery, toList_joined], by rw [hdoc, toList_joined]⟩
  · rintro ⟨mid, hquery, hdoc⟩
    refine ⟨String.ofList mid, String.toList_inj.1 ?_, String.toList_inj.1 ?_⟩
    · rw [toList_joined, String.toList_ofList, hquery]
    · rw [toList_joined, String.toList_ofList, hdoc]

theorem Shifted.ne {p p' : String × String} (h : Shifted p p') : p ≠ p' := by
  rintro rfl
  obtain ⟨mid, hquery, -⟩ := shifted_iff.1 h
  exact absurd (congrArg List.length hquery) (by simp)

theorem Shifted.nul_mem {p p' : String × String} (h : Shifted p p') : '\x00' ∈ p'.1.toList := by
  obtain ⟨mid, hquery, -⟩ := shifted_iff.1 h
  rw [hquery]
  exact List.mem_append_right _ List.mem_cons_self

/-- **Two pairs have one key when they are the same, or the same text split at different NULs.** -/
theorem hashPair_eq_iff {sha256 : ByteArray → D} (hsha : Function.Injective sha256)
    {q d q' d' : String} : hashPair sha256 q d = hashPair sha256 q' d' ↔
      (q, d) = (q', d') ∨ Shifted (q, d) (q', d') ∨ Shifted (q', d') (q, d) := by
  rw [hashPair, hashPair, hsha.eq_iff, pairBytes_eq, pairBytes_eq, String.toUTF8, String.toUTF8,
    String.toByteArray_inj, ← String.toList_inj, toList_joined, toList_joined,
    append_sep_eq_append_sep, String.toList_inj, String.toList_inj, shifted_iff, shifted_iff,
    Prod.mk.injEq]

/-! ### The store -/

/-- The cache; `inner` is `none` when the cache is disabled. -/
structure TokenCache (D : Type) where
  inner : Option (TokenCacheKey D → Option (List UInt32))

namespace TokenCache

/-- `TokenCache::new`. -/
def new (maxEntries : ℕ) : TokenCache D := if maxEntries = 0 then ⟨none⟩ else ⟨some fun _ => none⟩

/-- The ids that the cache holds under a key. -/
def entry (cache : TokenCache D) (key : TokenCacheKey D) : Option (List UInt32) :=
  cache.inner.bind fun store => store key

variable (sha256 : ByteArray → D) (cache : TokenCache D) (model query doc : String)

def get : Option (List UInt32) := cache.entry (model, hashPair sha256 query doc)

variable [DecidableEq D]

def insert (ids : List UInt32) : TokenCache D where
  inner := cache.inner.map fun store =>
    Function.update store (model, hashPair sha256 query doc) (some ids)

/-- The entry of a key leaves the cache. -/
def evict (key : TokenCacheKey D) : TokenCache D where
  inner := cache.inner.map fun store => Function.update store key none

variable {sha256 cache model query doc} {ids ids' : List UInt32} {key key' : TokenCacheKey D}

omit [DecidableEq D] in
@[simp] theorem entry_new (maxEntries : ℕ) : (new maxEntries : TokenCache D).entry key = none := by
  rw [new]
  split <;> rfl

omit [DecidableEq D] in
theorem inner_new_isSome {maxEntries : ℕ} (h : maxEntries ≠ 0) :
    (new maxEntries : TokenCache D).inner.isSome := by
  rw [new, if_neg h]
  rfl

/-- What is under a key after an insert: the ids inserted, or what was there. -/
theorem entry_insert : (cache.insert sha256 model query doc ids).entry key =
    if key = (model, hashPair sha256 query doc) then cache.inner.map fun _ => ids
    else cache.entry key := by
  cases hi : cache.inner with
  | none => simp [entry, insert, hi]
  | some store => simp [entry, insert, hi, Function.update_apply]

theorem entry_evict :
    (cache.evict key').entry key = if key = key' then none else cache.entry key := by
  cases hi : cache.inner with
  | none => simp [entry, evict, hi]
  | some store => simp [entry, evict, hi, Function.update_apply]

/-- Eviction leaves what it does not remove. -/
theorem entry_of_evict (h : (cache.evict key').entry key = some ids) :
    cache.entry key = some ids := by
  rw [entry_evict] at h
  split at h
  · cases h
  · exact h

end TokenCache

/-! ### Histories -/

/-- A change of the cache. -/
inductive CacheOp (D : Type)
  | insert (model query doc : String) (ids : List UInt32)
  | evict (key : TokenCacheKey D)
  deriving DecidableEq

section Histories

variable [DecidableEq D] (sha256 : ByteArray → D)

def TokenCache.step (cache : TokenCache D) : CacheOp D → TokenCache D
  | .insert model query doc ids => cache.insert sha256 model query doc ids
  | .evict key => cache.evict key

/-- The cache after a history. -/
def TokenCache.run (cache : TokenCache D) (history : List (CacheOp D)) : TokenCache D :=
  history.foldl (TokenCache.step sha256) cache

/-- The ids inserted last for exactly this model, query and document. -/
def lastInserted (model query doc : String) : List (CacheOp D) → Option (List UInt32) :=
  List.foldl (fun acc op =>
    match op with
    | .insert m q d ids => if (m, q, d) = (model, query, doc) then some ids else acc
    | .evict _ => acc) none

/-- The last insert under a key: its query, its document and its ids. -/
def lastWrite (key : TokenCacheKey D) : List (CacheOp D) → Option (String × String × List UInt32) :=
  List.foldl (fun acc op =>
    match op with
    | .insert m q d ids => if (m, hashPair sha256 q d) = key then some (q, d, ids) else acc
    | .evict _ => acc) none

/-- Every insert is for one of the pairs. -/
def CacheOp.Over (pairs : Set (String × String × String)) : CacheOp D → Prop
  | .insert model query doc _ => (model, query, doc) ∈ pairs
  | .evict _ => True

/-- A look-up after a history finds nothing, or the ids inserted last for exactly its model, query
and document, written by the insert of that pair. -/
def Faithful (maxEntries : ℕ) (history : List (CacheOp D)) (model query doc : String) : Prop :=
  ∀ ids, ((TokenCache.new maxEntries).run sha256 history).get sha256 model query doc = some ids →
    lastInserted model query doc history = some ids ∧
      lastWrite sha256 (model, hashPair sha256 query doc) history = some (query, doc, ids)

variable {sha256} {pairs : Set (String × String × String)} {history : List (CacheOp D)}
  {maxEntries : ℕ} {model query doc : String} {ids : List UInt32} {key : TokenCacheKey D}

section Steps

variable {cache : TokenCache D} {m q d : String} {ids' : List UInt32} {key' : TokenCacheKey D}

@[simp] theorem run_concat {op : CacheOp D} :
    cache.run sha256 (history ++ [op]) = (cache.run sha256 history).step sha256 op :=
  List.foldl_append

omit [DecidableEq D] in
theorem lastInserted_insert :
    lastInserted model query doc (history ++ [.insert m q d ids']) =
      if (m, q, d) = (model, query, doc) then some ids' else lastInserted model query doc history :=
  List.foldl_append

omit [DecidableEq D] in
@[simp] theorem lastInserted_evict : lastInserted model query doc (history ++ [.evict key']) =
    lastInserted model query doc history :=
  List.foldl_append

theorem lastWrite_insert : lastWrite sha256 key (history ++ [.insert m q d ids']) =
    if (m, hashPair sha256 q d) = key then some (q, d, ids') else lastWrite sha256 key history :=
  List.foldl_append

@[simp] theorem lastWrite_evict :
    lastWrite sha256 key (history ++ [.evict key']) = lastWrite sha256 key history :=
  List.foldl_append

/-- A disabled cache stays disabled. -/
theorem inner_run_eq_none (h : cache.inner = none) : (cache.run sha256 history).inner = none := by
  induction history using List.reverseRecOn with
  | nil => exact h
  | append_singleton history op ih =>
    rw [run_concat]
    cases op <;> simp [TokenCache.step, TokenCache.insert, TokenCache.evict, ih]

end Steps

/-- **A look-up finds what was written last under its key.** -/
theorem entry_run (h : ((TokenCache.new maxEntries).run sha256 history).entry key = some ids) :
    ∃ q d, lastWrite sha256 key history = some (q, d, ids) := by
  induction history using List.reverseRecOn with
  | nil => simp [TokenCache.run] at h
  | append_singleton history op ih =>
    rw [run_concat] at h
    cases op with
    | insert m q d ids' =>
      rw [TokenCache.step, TokenCache.entry_insert] at h
      rw [lastWrite_insert]
      by_cases hkey : key = (m, hashPair sha256 q d)
      · rw [if_pos hkey] at h
        obtain ⟨_, -, rfl⟩ := Option.map_eq_some_iff.1 h
        exact ⟨q, d, if_pos hkey.symm⟩
      · rw [if_neg hkey] at h
        rw [if_neg (Ne.symm hkey)]
        exact ih h
    | evict key' =>
      rw [lastWrite_evict]
      exact ih (TokenCache.entry_of_evict h)

/-- When the pair has a key of its own, the last write under it is the last insert for the pair. -/
theorem lastWrite_eq (hover : ∀ op ∈ history, op.Over pairs)
    (hkeys : ∀ q d, (model, q, d) ∈ pairs →
      hashPair sha256 q d = hashPair sha256 query doc → (q, d) = (query, doc)) :
    lastWrite sha256 (model, hashPair sha256 query doc) history =
      (lastInserted model query doc history).map fun ids => (query, doc, ids) := by
  induction history using List.reverseRecOn with
  | nil => rfl
  | append_singleton history op ih =>
    have hinit := ih fun op' hop' => hover op' (List.mem_append_left _ hop')
    cases op with
    | insert m q d ids' =>
      have hmem : (m, q, d) ∈ pairs := hover (.insert m q d ids') (by simp)
      rw [lastWrite_insert, lastInserted_insert]
      by_cases hpair : (m, q, d) = (model, query, doc)
      · obtain ⟨rfl, rfl, rfl⟩ := hpair
        simp
      · have hkey : (m, hashPair sha256 q d) ≠ (model, hashPair sha256 query doc) := by
          intro h
          obtain ⟨rfl, hhash⟩ := Prod.mk.inj h
          exact hpair (congrArg (m, ·) (hkeys q d hmem hhash))
        rw [if_neg hkey, if_neg hpair]
        exact hinit
    | evict key' =>
      rw [lastWrite_evict, lastInserted_evict]
      exact hinit

/-- After one insert, every pair with the same key finds its ids. -/
theorem get_run_singleton (model : String) (ids : List UInt32) (hmax : maxEntries ≠ 0)
    {q d : String}
    (hkey : hashPair sha256 q d = hashPair sha256 query doc) :
    ((TokenCache.new maxEntries).run sha256 [.insert model q d ids]).get sha256 model query doc =
      some ids := by
  obtain ⟨store, hstore⟩ := Option.isSome_iff_exists.1 (TokenCache.inner_new_isSome (D := D) hmax)
  change ((TokenCache.new maxEntries).insert sha256 model q d ids).entry _ = _
  rw [TokenCache.entry_insert, if_pos (by rw [hkey]), hstore]
  rfl

/-- Over pairs of which none is another one split at a different NUL, a cache answers faithfully. -/
theorem faithful_of_not_shifted (hsha : Function.Injective sha256)
    (hover : ∀ op ∈ history, op.Over pairs)
    (hshift : ∀ q d, (model, q, d) ∈ pairs →
      ¬ Shifted (q, d) (query, doc) ∧ ¬ Shifted (query, doc) (q, d)) :
    Faithful sha256 maxEntries history model query doc := by
  intro ids hget
  have hkeys (q d : String) (hmem : (model, q, d) ∈ pairs)
      (hkey : hashPair sha256 q d = hashPair sha256 query doc) : (q, d) = (query, doc) := by
    obtain ⟨hnot, hnot'⟩ := hshift q d hmem
    rcases (hashPair_eq_iff hsha).1 hkey with h | h | h
    · exact h
    · exact absurd h hnot
    · exact absurd h hnot'
  obtain ⟨q, d, hwrite⟩ := entry_run hget
  have hlast := lastWrite_eq hover hkeys
  rw [hwrite] at hlast
  obtain ⟨ids', hids', heq⟩ := Option.map_eq_some_iff.1 hlast.symm
  obtain ⟨rfl, rfl, rfl⟩ := heq
  exact ⟨hids', hwrite⟩

/-- Pairs whose queries have no NUL are never mistaken for each other, whatever the documents
are. -/
theorem faithful_of_plain_queries (hsha : Function.Injective sha256)
    (hover : ∀ op ∈ history, op.Over pairs) (hpair : (model, query, doc) ∈ pairs)
    (hplain : ∀ m q d, (m, q, d) ∈ pairs → '\x00' ∉ q.toList) :
    Faithful sha256 maxEntries history model query doc :=
  faithful_of_not_shifted hsha hover fun _ _ hmem =>
    ⟨fun h => hplain _ _ _ hpair h.nul_mem, fun h => hplain _ _ _ hmem h.nul_mem⟩

/-- **A cache answers faithfully over a set of pairs, in every history of inserts for them and of
evictions, exactly when it is disabled or no two of the pairs of a model are one text split at
different NULs.** -/
theorem lookups_faithful_iff (hsha : Function.Injective sha256) (maxEntries : ℕ)
    (pairs : Set (String × String × String)) :
    (∀ history : List (CacheOp D), (∀ op ∈ history, op.Over pairs) →
      ∀ model query doc, (model, query, doc) ∈ pairs →
        Faithful sha256 maxEntries history model query doc) ↔
      maxEntries = 0 ∨ ∀ model q d q' d', (model, q, d) ∈ pairs → (model, q', d') ∈ pairs →
        ¬ Shifted (q, d) (q', d') := by
  constructor
  · intro hfaithful
    by_contra hnot
    push Not at hnot
    obtain ⟨hmax, model, q, d, q', d', hpair, hpair', hshift⟩ := hnot
    have hkey : hashPair sha256 q d = hashPair sha256 q' d' :=
      (hashPair_eq_iff hsha).2 (.inr (.inl hshift))
    have hget := get_run_singleton model [] hmax hkey
    have hover : ∀ op ∈ [CacheOp.insert (D := D) model q d []], op.Over pairs := by
      intro op hop
      rw [List.mem_singleton.1 hop]
      exact hpair
    obtain ⟨hlast, -⟩ := hfaithful _ hover model q' d' hpair' [] hget
    have hne : (model, q, d) ≠ (model, q', d') := fun h => hshift.ne (Prod.mk.inj h).2
    have hnever : lastInserted model q' d' ([] ++ [CacheOp.insert (D := D) model q d []]) = none :=
      lastInserted_insert.trans (if_neg hne)
    rw [List.nil_append, hlast] at hnever
    cases hnever
  · rintro (rfl | hshift) history hover model query doc hpair
    · intro ids hget
      have hinner : ((TokenCache.new 0).run sha256 history).inner = none := inner_run_eq_none rfl
      rw [TokenCache.get, TokenCache.entry, hinner] at hget
      cases hget
    · exact faithful_of_not_shifted hsha hover fun _ _ hmem =>
        ⟨hshift _ _ _ _ _ hmem hpair, hshift _ _ _ _ _ hpair hmem⟩

theorem injective_data : Function.Injective ByteArray.data := fun _ _ => ByteArray.ext

/-- Two pairs that only the separator tells apart. -/
theorem lookups_faithful_iff_boundary :
    (∀ history : List (CacheOp (Array UInt8)),
      (∀ op ∈ history, op.Over {("m", "ab", "c"), ("m", "a", "bc")}) →
      ∀ model query doc, (model, query, doc) ∈ ({("m", "ab", "c"), ("m", "a", "bc")} : Set _) →
        Faithful ByteArray.data 10 history model query doc) ↔
      10 = 0 ∨ ∀ model q d q' d', (model, q, d) ∈ ({("m", "ab", "c"), ("m", "a", "bc")} : Set _) →
        (model, q', d') ∈ ({("m", "ab", "c"), ("m", "a", "bc")} : Set _) →
        ¬ Shifted (q, d) (q', d') :=
  lookups_faithful_iff injective_data 10 _

end Histories

/-- The texts `"a"`, NUL, `"b"` and `"c"` as query and document are found by a look-up of `"a"` and
`"b"`, NUL, `"c"`, although its own ids were inserted before. -/
theorem lookup_finds_shifted_pair : Function.Injective ByteArray.data ∧
    ¬ Faithful ByteArray.data 10 [.insert "m" "a" "b\x00c" [1, 2], .insert "m" "a\x00b" "c" [3, 4]]
      "m" "a" "b\x00c" := by
  refine ⟨injective_data, fun hfaithful => ?_⟩
  have hlast := (hfaithful [3, 4] (by decide +kernel)).1
  exact absurd hlast (by decide +kernel)

end OxEmbed.Rerank

import Mathlib.Data.List.Basic
import Mathlib.Logic.Function.Basic

/-!
# The embedding cache

The cache of `cache.rs`: vectors keyed by a model name and the hash of a text. A cache of capacity
`0` has no store, misses every look-up and drops every insert. Which entries are evicted, and when,
is not a matter of the cache's user: eviction removes any entry at any time.

The model name in a key is the one that `cache_model_key` makes of the name and of the input type.
Names of models contain no `':'`, so the keys of different models or input types differ.

## Main definitions

* `EmbeddingCache`, `get`, `insert`, `evict` : the cache.
* `InputType`, `cacheModelKey` : the model part of a key.

## Main results

* `EmbeddingCache.get_insert`, `EmbeddingCache.get_evict` : what a look-up finds after a change.
* `cacheModelKey_inj` : the key determines the model and the input type.
-/

namespace OxEmbed.Embeddings

/-! ### The store -/

/-- A key of the cache: a model name and the hash of a text. -/
abbrev CacheKey (D : Type) := String × D

/-- The cache; `inner` is `none` when the cache is disabled. -/
structure EmbeddingCache (D V : Type) where
  inner : Option (CacheKey D → Option V)

namespace EmbeddingCache

variable {D V : Type}

/-- `EmbeddingCache::new`. -/
def new (maxEntries : ℕ) : EmbeddingCache D V :=
  if maxEntries = 0 then ⟨none⟩ else ⟨some fun _ => none⟩

variable (cache : EmbeddingCache D V) (hashText : String → D) (model text : String)

def get : Option V := cache.inner.bind fun store => store (model, hashText text)

variable [DecidableEq D]

def insert (v : V) : EmbeddingCache D V where
  inner := cache.inner.map fun store => Function.update store (model, hashText text) (some v)

/-- The entry of a key leaves the cache. -/
def evict (key : CacheKey D) : EmbeddingCache D V where
  inner := cache.inner.map fun store => Function.update store key none

variable {cache hashText model text} {v w : V} {model' text' : String} {key : CacheKey D}

omit [DecidableEq D] in
theorem get_new (maxEntries : ℕ) : (new maxEntries : EmbeddingCache D V).get hashText model text =
    none := by
  rw [new]
  split <;> rfl

/-- A look-up after an insert finds the value inserted under its own key or an older one. -/
theorem get_insert (h : (cache.insert hashText model text v).get hashText model' text' = some w) :
    (model' = model ∧ hashText text' = hashText text ∧ w = v) ∨
      cache.get hashText model' text' = some w := by
  cases hi : cache.inner with
  | none => simp [get, insert, hi] at h
  | some store =>
    simp only [get, insert, hi, Option.map_some, Option.bind_some] at h ⊢
    by_cases hkey : (model', hashText text') = (model, hashText text)
    · rw [hkey, Function.update_self] at h
      exact .inl ⟨congrArg Prod.fst hkey, congrArg Prod.snd hkey, (Option.some.inj h).symm⟩
    · rw [Function.update_of_ne hkey] at h
      exact .inr h

theorem get_evict (h : (cache.evict key).get hashText model text = some v) :
    cache.get hashText model text = some v := by
  cases hi : cache.inner with
  | none => simp [get, evict, hi] at h
  | some store =>
    simp only [get, evict, hi, Option.map_some, Option.bind_some] at h ⊢
    by_cases hkey : (model, hashText text) = key
    · rw [hkey, Function.update_self] at h
      cases h
    · rwa [Function.update_of_ne hkey] at h

end EmbeddingCache

/-! ### The model part of a key -/

/-- Document or query input. -/
inductive InputType
  | document
  | query
  deriving DecidableEq, Repr

/-- The model part of a cache key. -/
def cacheModelKey (modelName : String) : InputType → String
  | .document => modelName
  | .query => s!"{modelName}:query"

/-- The name of a model has no `':'`: the entries of the configuration are split on it. -/
def PlainName (modelName : String) : Prop := ':' ∉ modelName.toList

instance (modelName : String) : Decidable (PlainName modelName) :=
  inferInstanceAs (Decidable (':' ∉ modelName.toList))

theorem toList_cacheModelKey_query (modelName : String) :
    (cacheModelKey modelName .query).toList = modelName.toList ++ ":query".toList :=
  String.toList_append

/-- The model part of a key determines the model and the input type. -/
theorem cacheModelKey_inj {m m' : String} {kind kind' : InputType} (hm : PlainName m)
    (hm' : PlainName m') (h : cacheModelKey m kind = cacheModelKey m' kind') :
    m = m' ∧ kind = kind' := by
  have hquery (name : String) : ':' ∈ (cacheModelKey name .query).toList := by
    rw [toList_cacheModelKey_query]
    exact List.mem_append_right _ (by decide)
  cases kind with
  | document =>
    cases kind' with
    | document => exact ⟨h, rfl⟩
    | query =>
      have hcolon : ':' ∈ (cacheModelKey m .document).toList := h ▸ hquery m'
      exact absurd hcolon hm
  | query =>
    cases kind' with
    | document =>
      have hcolon : ':' ∈ (cacheModelKey m' .document).toList := h ▸ hquery m
      exact absurd hcolon hm'
    | query =>
      have hlist := congrArg String.toList h
      rw [toList_cacheModelKey_query, toList_cacheModelKey_query] at hlist
      exact ⟨String.toList_inj.mp (List.append_cancel_right hlist), rfl⟩

end OxEmbed.Embeddings

import OxEmbed.Library.Splice
import OxEmbed.Rerank.TokenCache
import OxEmbed.Reranker.Basic

/-!
# Tokenizing a request through the cache

`tokenize_with_cache` of `api_rerank.rs`: the pairs of the query and the documents of a request are
looked up in the token cache, those that are missing are tokenized in one batch, and the new rows
are spliced back at the positions of the missing documents and put into the cache on the way.

Entries may be evicted at any time during a request: before each look-up, while the tokenizer runs
and before each insert.

## Main definitions

* `tokenizeWithCache` : the call, with the cache after it and the documents that were tokenized.
* `HoldsOwn` : every entry holds the ids of a pair of its own key.
* `Call.Exact` : a call returns the ids of each document at its position.

## Main results

* `splice_rows` : the loop fills the open slots in order.
* `tokenizeWithCache_of_tokenized` : the rows and the cache after a call whose tokenizer gives one
  row for each document.
* `tokenizeWithCache_exact_iff` : exactly when a call is exact.
-/

namespace OxEmbed.Rerank

open Reranker Splice

variable {D : Type}

/-! ### The call -/

/-- `TokenizeError`. -/
inductive TokenizeError
  | failed (error : String)
  | panic (error : String)
  deriving DecidableEq

/-- A document's slot: its index and its ids. -/
abbrev Slot := ℕ × Option (List UInt32)

/-- What a call leaves: the cache, the documents that it had tokenized, and the result, `none` if
the call itself panics. -/
structure Call (D : Type) where
  cache : TokenCache D
  tokenized : List String
  result : Option (Except TokenizeError (List (List UInt32)))

section Call

variable [DecidableEq D] (sha256 : ByteArray → D) (evictions : ℕ → List (TokenCacheKey D))
  (cache : TokenCache D) (model query : String) (documents : List String)

/-- The cache without the entries of some keys. -/
def TokenCache.evictAll (keys : List (TokenCacheKey D)) : TokenCache D :=
  keys.foldl (fun cache key => cache.evict key) cache

/-- The cache once the evictions up to the access number `i` are done. -/
def TokenCache.evicted (i : ℕ) : TokenCache D :=
  cache.evictAll ((List.range (i + 1)).flatMap evictions)

/-- The look-up of a document with its index. -/
def probe (p : String × ℕ) : Option (List UInt32) :=
  (cache.evicted evictions p.2).get sha256 model query p.1

/-- The slots after the probe of the cache for every document. -/
def resultSlots : List Slot :=
  documents.zipIdx.map fun p => (p.2, probe sha256 evictions cache model query p)

/-- The loop over the slots, the first of which is access number `i`; the slots are `none` if an
index is out of bounds. -/
def splice (cache : TokenCache D) (i : ℕ) :
    List (List UInt32 × ℕ) → List Slot → TokenCache D × Option (List Slot)
  | _, [] => (cache, some [])
  | missIter, (j, some ids) :: slots =>
    let rest := splice cache i missIter slots
    (rest.1, rest.2.map ((j, some ids) :: ·))
  | [], (j, none) :: slots =>
    let rest := splice cache i [] slots
    (rest.1, rest.2.map ((j, none) :: ·))
  | (ids, origIdx) :: missIter, (j, none) :: slots =>
    match documents[origIdx]? with
    | none => (cache, none)
    | some doc =>
      let evicted := cache.evictAll (evictions i)
      let rest := splice (evicted.insert sha256 model query doc ids) (i + 1) missIter slots
      (rest.1, rest.2.map ((j, some ids) :: ·))

/-- `tokenize_with_cache`; `joinError` tells that the blocking task panicked. -/
def tokenizeWithCache (M : RerankerModel) (encodeBatch : EncodeBatch) (joinError : Option String) :
    Call D :=
  let slots := resultSlots sha256 evictions cache model query documents
  let missIndices := (slots.filter fun slot => slot.2.isNone).map Prod.fst
  if missIndices = [] then
    ⟨cache.evicted evictions documents.length, [], (slots.mapM Prod.snd).map .ok⟩
  else
    let cache := cache.evicted evictions documents.length
    match missIndices.mapM fun i => documents[i]? with
    | none => ⟨cache, [], none⟩
    | some missDocs =>
      match joinError, tokenizePairs M encodeBatch query missDocs with
      | some e, _ => ⟨cache, missDocs, some (.error (.panic s!"tokenize task panicked: {e}"))⟩
      | none, .error e => ⟨cache, missDocs, some (.error (.failed e))⟩
      | none, .ok tokenizedMisses =>
        let spliced := splice sha256 evictions model query documents cache (documents.length + 1)
          (tokenizedMisses.zip missIndices) slots
        ⟨spliced.1, missDocs, spliced.2.bind fun slots => (slots.mapM Prod.snd).map .ok⟩

end Call

/-! ### What a call owes -/

/-- The ids of a pair: its encoding, cut at the model's length. -/
def pairIds (M : RerankerModel) (encode : String × String → List UInt32) (query doc : String) :
    List UInt32 :=
  (encode (query, doc)).take (min (encode (query, doc)).length M.maxLen)

/-- When the tokenizer gives one encoding for each pair, it is the encoding of that pair, whatever
the others of the batch are. -/
def PerPair (encode : String × String → List UInt32) (encodeBatch : EncodeBatch) : Prop :=
  ∀ pairs rows, encodeBatch pairs = .ok rows → rows.length = pairs.length →
    rows = pairs.map encode

/-- Every entry holds the ids of a pair of its own key; `tok` are the tokenizers of all models. -/
def HoldsOwn (sha256 : ByteArray → D) (tok : String → String → String → List UInt32)
    (cache : TokenCache D) : Prop :=
  ∀ key ids, cache.entry key = some ids →
    ∃ query doc, key.2 = hashPair sha256 query doc ∧ ids = tok key.1 query doc

section Exact

variable [DecidableEq D] (sha256 : ByteArray → D) (tok : String → String → String → List UInt32)
  (evictions : ℕ → List (TokenCacheKey D)) (cache : TokenCache D) (model query : String)
  (documents : List String)

/-- The documents that are not in the cache when they are looked up. -/
def missed : List String :=
  (documents.zipIdx.filter fun p =>
    (probe sha256 evictions cache model query p).isNone).map Prod.fst

variable (M : RerankerModel) (encodeBatch : EncodeBatch) (joinError : Option String)

/-- Nothing had to be tokenized, or the tokenizer gave one row for each document. -/
def Call.Tokenized (call : Call D) : Prop :=
  call.tokenized = [] ∨ joinError = none ∧ ∃ rows,
    tokenizePairs M encodeBatch query call.tokenized = .ok rows ∧
      rows.length = call.tokenized.length

/-- A call tokenizes the missed documents, returns the ids of each document at its position and
leaves a cache of entries that hold their own ids; when the tokenizer fails, it changes nothing. -/
structure Call.Exact (call : Call D) : Prop where
  tokenized : call.tokenized = missed sha256 evictions cache model query documents
  rows : call.Tokenized query M encodeBatch joinError →
    call.result = some (.ok (documents.map (tok model query)))
  holdsOwn : call.Tokenized query M encodeBatch joinError → HoldsOwn sha256 tok call.cache
  failed : call.tokenized ≠ [] →
    (joinError ≠ none ∨ ∃ e, tokenizePairs M encodeBatch query call.tokenized = .error e) →
    (∃ e, call.result = some (.error e)) ∧ call.cache = cache.evicted evictions documents.length

end Exact

/-! ### The cache along a call -/

section Cache

variable [DecidableEq D] {sha256 : ByteArray → D} {tok : String → String → String → List UInt32}
  {evictions : ℕ → List (TokenCacheKey D)} {cache : TokenCache D} {model query doc : String}
  {keys : List (TokenCacheKey D)} {key : TokenCacheKey D} {ids : List UInt32}

theorem entry_of_evictAll (h : (cache.evictAll keys).entry key = some ids) :
    cache.entry key = some ids := by
  induction keys generalizing cache with
  | nil => exact h
  | cons key' keys ih => exact TokenCache.entry_of_evict (ih h)

omit [DecidableEq D] in
theorem holdsOwn_new (maxEntries : ℕ) : HoldsOwn sha256 tok (.new maxEntries) := by
  intro key ids h
  rw [TokenCache.entry_new] at h
  cases h

theorem HoldsOwn.evictAll (hown : HoldsOwn sha256 tok cache) :
    HoldsOwn sha256 tok (cache.evictAll keys) :=
  fun key ids h => hown key ids (entry_of_evictAll h)

/-- An insert of the ids of a pair keeps what the entries hold. -/
theorem HoldsOwn.insert (hown : HoldsOwn sha256 tok cache) :
    HoldsOwn sha256 tok (cache.insert sha256 model query doc (tok model query doc)) := by
  intro key ids h
  rw [TokenCache.entry_insert] at h
  split at h
  next hkey =>
    obtain ⟨_, -, rfl⟩ := Option.map_eq_some_iff.1 h
    exact ⟨query, doc, congrArg Prod.snd hkey, by rw [hkey]⟩
  · exact hown key ids h

end Cache

/-! ### The loop -/

section Splice

variable [DecidableEq D] {sha256 : ByteArray → D} {tok : String → String → String → List UInt32}
  {evictions : ℕ → List (TokenCacheKey D)} {model query : String} {documents : List String}

variable (evictions model query) in
/-- **The loop fills the open slots in order**, from one row for each of them, and puts every row
into the cache under its own key. -/
theorem splice_rows (probe : String × ℕ → Option (List UInt32)) (entries : List (String × ℕ))
    (hentries : ∀ p ∈ entries, documents[p.2]? = some p.1) (cache : TokenCache D) (i : ℕ)
    (hown : HoldsOwn sha256 tok cache) :
    ∃ cache', HoldsOwn sha256 tok cache' ∧
      splice sha256 evictions model query documents cache i
        ((entries.filter fun p => (probe p).isNone).map fun p => (tok model query p.1, p.2))
        (entries.map fun p => (p.2, probe p)) =
      (cache', some (entries.map fun p =>
        (p.2, some ((probe p).getD (tok model query p.1))))) := by
  induction entries generalizing cache i with
  | nil => exact ⟨cache, hown, by simp [splice]⟩
  | cons p entries ih =>
    have htail : ∀ p' ∈ entries, documents[p'.2]? = some p'.1 :=
      fun p' hp' => hentries p' (List.mem_cons_of_mem _ hp')
    cases hprobe : probe p with
    | some ids =>
      obtain ⟨cache', hown', hsplice⟩ := ih htail cache i hown
      refine ⟨cache', hown', ?_⟩
      rw [List.filter_cons_of_neg (by simp [hprobe]), List.map_cons, hprobe, splice, hsplice,
        List.map_cons, hprobe]
      rfl
    | none =>
      have hdoc : documents[p.2]? = some p.1 := hentries p List.mem_cons_self
      obtain ⟨cache', hown', hsplice⟩ := ih htail
        ((cache.evictAll (evictions i)).insert sha256 model query p.1 (tok model query p.1))
        (i + 1) hown.evictAll.insert
      refine ⟨cache', hown', ?_⟩
      rw [List.filter_cons_of_pos (by simp [hprobe]), List.map_cons, List.map_cons, hprobe, splice,
        hdoc]
      simp only [hsplice]
      rw [List.map_cons, hprobe]
      rfl

end Splice

/-! ### The whole call -/

section Whole

variable [DecidableEq D] {sha256 : ByteArray → D} {tok : String → String → String → List UInt32}
  {evictions : ℕ → List (TokenCacheKey D)} {cache : TokenCache D} {model query : String}
  {documents : List String} {M : RerankerModel} {encodeBatch : EncodeBatch}
  {encode : String × String → List UInt32} {joinError : Option String}

theorem getElem?_of_mem_zipIdx {p : String × ℕ} (hp : p ∈ documents.zipIdx) :
    documents[p.2]? = some p.1 :=
  List.mem_zipIdx_iff_getElem?.1 hp

variable (sha256 evictions cache model query documents) in
/-- The indices of the open slots are those of the missed documents. -/
theorem missIndices_eq :
    ((resultSlots sha256 evictions cache model query documents).filter
      fun slot => slot.2.isNone).map Prod.fst =
      (documents.zipIdx.filter fun p =>
        (probe sha256 evictions cache model query p).isNone).map Prod.snd := by
  rw [resultSlots, List.filter_map, List.map_map]
  rfl

variable (sha256 evictions cache model query documents) in
theorem missDocs_eq :
    (((documents.zipIdx.filter fun p =>
      (probe sha256 evictions cache model query p).isNone).map Prod.snd).mapM
        fun i => documents[i]?) = some (missed sha256 evictions cache model query documents) :=
  mapM_map_eq_some fun _ hp => getElem?_of_mem_zipIdx (List.mem_filter.1 hp).1

theorem missed_eq_nil_iff : missed sha256 evictions cache model query documents = [] ↔
    (documents.zipIdx.filter fun p =>
      (probe sha256 evictions cache model query p).isNone).map Prod.snd = [] := by
  rw [missed, List.map_eq_nil_iff, List.map_eq_nil_iff]

variable (sha256 evictions cache model query documents M encodeBatch joinError) in
/-- Exactly the missed documents are tokenized. -/
theorem tokenized_eq :
    (tokenizeWithCache sha256 evictions cache model query documents M encodeBatch
      joinError).tokenized = missed sha256 evictions cache model query documents := by
  rw [tokenizeWithCache]
  simp only [missIndices_eq, missDocs_eq]
  split
  next hnone => exact (missed_eq_nil_iff.2 hnone).symm
  · cases joinError with
    | some e => rfl
    | none => cases tokenizePairs M encodeBatch query _ <;> rfl

/-- When the tokenizer fails, the call fails and the cache only has the evictions. -/
theorem tokenizeWithCache_of_failed
    (hmissed : missed sha256 evictions cache model query documents ≠ [])
    (hfailed : joinError ≠ none ∨ ∃ e, tokenizePairs M encodeBatch query
      (missed sha256 evictions cache model query documents) = .error e) :
    (∃ e, (tokenizeWithCache sha256 evictions cache model query documents M encodeBatch
      joinError).result = some (.error e)) ∧
      (tokenizeWithCache sha256 evictions cache model query documents M encodeBatch
        joinError).cache = cache.evicted evictions documents.length := by
  have hopen : (documents.zipIdx.filter fun p =>
      (probe sha256 evictions cache model query p).isNone).map Prod.snd ≠ [] :=
    mt missed_eq_nil_iff.2 hmissed
  rw [tokenizeWithCache]
  simp only [missIndices_eq, missDocs_eq, if_neg hopen]
  cases hjoin : joinError with
  | some e => exact ⟨⟨_, rfl⟩, rfl⟩
  | none =>
    obtain ⟨e, he⟩ := hfailed.resolve_left (not_not.2 hjoin)
    rw [he]
    exact ⟨⟨_, rfl⟩, rfl⟩

/-- The rows of the tokenizer are the ids of their pairs. -/
theorem tokenizePairs_rows (hencode : PerPair encode encodeBatch) {docs : List String}
    {rows : List (List UInt32)} (hrows : tokenizePairs M encodeBatch query docs = .ok rows)
    (hlen : rows.length = docs.length) : rows = docs.map (pairIds M encode query) := by
  rw [tokenizePairs] at hrows
  split at hrows
  next hnil => rw [← Except.ok.inj hrows, hnil, List.map_nil]
  · cases hbatch : encodeBatch (docs.map fun d => (query, d)) with
    | error e =>
      rw [hbatch] at hrows
      cases hrows
    | ok encodings =>
      rw [hbatch] at hrows
      obtain rfl := Except.ok.inj hrows
      rw [hencode _ _ hbatch (by simpa using hlen), List.map_map, List.map_map]
      rfl

/-- **The rows and the cache after a call whose tokenizer gives one row for each document**: what
the probe finds and, where it finds nothing, the ids of the pair. -/
theorem tokenizeWithCache_of_tokenized (hencode : PerPair encode encodeBatch)
    (htok : tok model = pairIds M encode) (hown : HoldsOwn sha256 tok cache)
    (htokenized : (tokenizeWithCache sha256 evictions cache model query documents M encodeBatch
      joinError).Tokenized query M encodeBatch joinError) :
    (tokenizeWithCache sha256 evictions cache model query documents M encodeBatch
      joinError).result = some (.ok (documents.zipIdx.map fun p =>
        (probe sha256 evictions cache model query p).getD (tok model query p.1))) ∧
      HoldsOwn sha256 tok (tokenizeWithCache sha256 evictions cache model query documents M
        encodeBatch joinError).cache := by
  rw [Call.Tokenized, tokenized_eq] at htokenized
  rw [tokenizeWithCache]
  simp only [missIndices_eq, missDocs_eq]
  split
  next hnone =>
    -- every slot is filled by the probe
    refine ⟨congrArg (Option.map Except.ok) (mapM_map_eq_some fun p hp => ?_), hown.evictAll⟩
    have hfilter := List.filter_eq_nil_iff.1 (List.map_eq_nil_iff.1 hnone) p hp
    cases hprobe : probe sha256 evictions cache model query p with
    | none => simp [hprobe] at hfilter
    | some ids => rfl
  next hopen =>
    obtain ⟨rfl, rows, hrows, hlen⟩ := htokenized.resolve_left (mt missed_eq_nil_iff.1 hopen)
    obtain ⟨cache', hown', hsplice⟩ := splice_rows evictions model query
      (probe sha256 evictions cache model query) documents.zipIdx
      (fun _ hp => getElem?_of_mem_zipIdx hp) (cache.evicted evictions documents.length)
      (documents.length + 1) hown.evictAll
    have hzip : rows.zip ((documents.zipIdx.filter fun p =>
        (probe sha256 evictions cache model query p).isNone).map Prod.snd) =
        (documents.zipIdx.filter fun p =>
          (probe sha256 evictions cache model query p).isNone).map
            fun p => (tok model query p.1, p.2) := by
      rw [tokenizePairs_rows hencode hrows hlen, ← htok, missed, List.map_map, List.zip_map']
      rfl
    rw [hrows]
    simp only [hzip, resultSlots, hsplice]
    have hslots : (documents.zipIdx.map fun p => (p.2, some
        ((probe sha256 evictions cache model query p).getD (tok model query p.1)))).mapM Prod.snd =
        some (documents.zipIdx.map fun p =>
          (probe sha256 evictions cache model query p).getD (tok model query p.1)) :=
      mapM_map_eq_some fun _ _ => rfl
    rw [Option.bind_some, hslots]
    exact ⟨rfl, hown'⟩

/-- The rows are the ids of the documents when all that the probe finds is. -/
theorem rows_eq_iff : (documents.zipIdx.map fun p =>
      (probe sha256 evictions cache model query p).getD (tok model query p.1)) =
        documents.map (tok model query) ↔
      ∀ p ∈ documents.zipIdx, ∀ ids, probe sha256 evictions cache model query p = some ids →
        ids = tok model query p.1 := by
  have hdocs : documents.map (tok model query) =
      documents.zipIdx.map fun p => tok model query p.1 := by
    conv_lhs => rw [← List.zipIdx_map_fst 0 documents, List.map_map]
    rfl
  rw [hdocs, List.map_inj_left]
  refine forall₂_congr fun p _ => ?_
  cases probe sha256 evictions cache model query p with
  | none => simp
  | some ids => simp

/-- A tokenizer that never fails. -/
theorem tokenizePairs_encode (docs : List String) :
    tokenizePairs M (fun pairs => .ok (pairs.map encode)) query docs =
      .ok (docs.map (pairIds M encode query)) := by
  rw [tokenizePairs]
  split
  next hnil => rw [hnil, List.map_nil]
  · refine congrArg Except.ok ?_
    rw [List.map_map, List.map_map]
    rfl

variable (sha256 cache model query) in
/-- No entry under the key of a requested pair holds the different ids of a pair that is the same
text split at another NUL. -/
def Unshifted (tok : String → String → String → List UInt32) (documents : List String) : Prop :=
  ∀ doc ∈ documents, ∀ q d, Shifted (q, d) (query, doc) ∨ Shifted (query, doc) (q, d) →
    cache.entry (model, hashPair sha256 query doc) = some (tok model q d) →
      tok model q d = tok model query doc

theorem probe_eq_of_unshifted (hsha : Function.Injective sha256)
    (hown : HoldsOwn sha256 tok cache) (hshift : Unshifted sha256 cache model query tok documents)
    {p : String × ℕ} (hp : p ∈ documents.zipIdx) {ids : List UInt32}
    (hprobe : probe sha256 evictions cache model query p = some ids) :
    ids = tok model query p.1 := by
  have hentry : cache.entry (model, hashPair sha256 query p.1) = some ids :=
    entry_of_evictAll hprobe
  obtain ⟨q, d, hkey, rfl⟩ := hown _ _ hentry
  rcases (hashPair_eq_iff hsha).1 hkey with hpair | hshifted
  · obtain ⟨rfl, rfl⟩ := Prod.mk.inj hpair
    rfl
  · exact hshift p.1 (List.fst_mem_of_mem_zipIdx hp) q d hshifted.symm hentry

/-- **Calls on a cache whose entries hold their own ids are exact, whatever the evictions and
whatever comes of the tokenizer, exactly when no entry under the key of a requested pair holds the
different ids of a pair split at another NUL.** -/
theorem tokenizeWithCache_exact_iff (hsha : Function.Injective sha256)
    (htok : tok model = pairIds M encode) (hown : HoldsOwn sha256 tok cache) :
    (∀ encodeBatch, PerPair encode encodeBatch → ∀ evictions joinError,
      (tokenizeWithCache sha256 evictions cache model query documents M encodeBatch
        joinError).Exact sha256 tok evictions cache model query documents M encodeBatch
          joinError) ↔
      Unshifted sha256 cache model query tok documents := by
  constructor
  · intro hexact doc hdoc q d hshifted hentry
    -- a run without evictions, whose tokenizer never fails
    have hencode : PerPair encode fun pairs => .ok (pairs.map encode) :=
      fun _ _ h _ => (Except.ok.inj h).symm
    have hcall := hexact _ hencode (fun _ => []) none
    have htokenized : Call.Tokenized query M (fun pairs => .ok (pairs.map encode)) none
        (tokenizeWithCache sha256 (fun _ => []) cache model query documents M
          (fun pairs => .ok (pairs.map encode)) none) :=
      .inr ⟨rfl, _, tokenizePairs_encode _, List.length_map _⟩
    have hrows := hcall.rows htokenized
    rw [(tokenizeWithCache_of_tokenized hencode htok hown htokenized).1] at hrows
    obtain ⟨j, hj⟩ := List.mem_iff_getElem?.1 hdoc
    have hprobe : probe sha256 (fun _ => []) cache model query (doc, j) =
        some (tok model q d) := by
      rw [probe, TokenCache.evicted, List.flatMap_eq_nil_iff.2 fun _ _ => rfl]
      exact hentry
    exact rows_eq_iff.1 (Except.ok.inj (Option.some.inj hrows)) (doc, j)
      (List.mk_mem_zipIdx_iff_getElem?.2 hj) _ hprobe
  · intro hshift encodeBatch hencode evictions joinError
    exact {
      tokenized := tokenized_eq sha256 evictions cache model query documents M encodeBatch joinError
      rows := fun h => by
        rw [(tokenizeWithCache_of_tokenized hencode htok hown h).1,
          rows_eq_iff.2 fun p hp ids hprobe => probe_eq_of_unshifted hsha hown hshift hp hprobe]
      holdsOwn := fun h => (tokenizeWithCache_of_tokenized hencode htok hown h).2
      failed := fun hne hfailed => by
        rw [tokenized_eq] at hne hfailed
        exact tokenizeWithCache_of_failed hne hfailed }

end Whole

/-! ### A request whose document moves a NUL -/

section Fixed

/-- A tokenizer that sets off the characters of the query and of the document. -/
def charIds (p : String × String) : List UInt32 :=
  0 :: (p.1.toList.map fun c => c.val) ++ 2 :: p.2.toList.map fun c => c.val

/-- A model for short texts. -/
def shortModel : RerankerModel where
  maxLen := 256
  padId := 1
  sessions := 1
  staticSessionPools := fun _ => none

/-- The cache after one request of the model `"m"`, for one pair. -/
def cacheOf (query doc : String) : TokenCache (Array UInt8) :=
  (TokenCache.new 10).insert ByteArray.data "m" query doc (pairIds shortModel charIds query doc)

theorem holdsOwn_cacheOf (query doc : String) :
    HoldsOwn ByteArray.data (fun _ => pairIds shortModel charIds) (cacheOf query doc) :=
  (holdsOwn_new 10).insert

/-- With the pair of `"a"`, NUL, `"b"` and `"c"` in the cache, a request for the query `"a"` and the
document `"b"`, NUL, `"c"` gets the ids of that pair. -/
theorem tokenizeWithCache_shifted :
    HoldsOwn ByteArray.data (fun _ => pairIds shortModel charIds) (cacheOf "a\x00b" "c") ∧
    ¬ (tokenizeWithCache ByteArray.data (fun _ => []) (cacheOf "a\x00b" "c") "m" "a" ["b\x00c"]
        shortModel (fun pairs => .ok (pairs.map charIds)) none).Exact ByteArray.data
          (fun _ => pairIds shortModel charIds) (fun _ => []) (cacheOf "a\x00b" "c") "m" "a"
          ["b\x00c"] shortModel (fun pairs => .ok (pairs.map charIds)) none := by
  refine ⟨holdsOwn_cacheOf _ _, fun hexact => ?_⟩
  have hrows := hexact.rows (.inl (by decide +kernel))
  exact absurd hrows (by decide +kernel)

/-- A cached pair that only the separator tells from a requested one. -/
theorem tokenizeWithCache_exact_iff_boundary :
    (∀ encodeBatch, PerPair charIds encodeBatch → ∀ evictions joinError,
      (tokenizeWithCache ByteArray.data evictions (cacheOf "ab" "c") "m" "a" ["bc", "d"] shortModel
        encodeBatch joinError).Exact ByteArray.data (fun _ => pairIds shortModel charIds) evictions
          (cacheOf "ab" "c") "m" "a" ["bc", "d"] shortModel encodeBatch joinError) ↔
      Unshifted ByteArray.data (cacheOf "ab" "c") "m" "a" (fun _ => pairIds shortModel charIds)
        ["bc", "d"] :=
  tokenizeWithCache_exact_iff injective_data rfl (holdsOwn_cacheOf _ _)

end Fixed

end OxEmbed.Rerank

import OxEmbed.Rerank.Handler

/-!
# The responses of the rerank endpoint

A response of `POST /v1/rerank` with status 200 has the results that the cross-encoder gives for the
query and the documents of its request, whichever way the request took: through a worker process,
through the batcher, where it is coalesced with others, or through a blocking task, with its pairs
tokenized at once or found in the token cache.

The handler is composed with its backends: what it receives from a worker and from the batcher is
what these return in some reachable state of their own machines. The pairs of the requests must not
collide in the token cache.

## Main definitions

* `CrossEncoder` : a reranker with its tokenizer and its sessions.
* `WorkerReturns`, `BatcherReturns`, `Infers`, `Backed` : the backends behind the handler.
* `Apart` : pairs that have keys of their own.
* `Phase.Ok`, `CacheOk`, `Inv` : the invariant.
* `Reranked` : what the responses contain.

## Main results

* `inv_of_reachable` : the invariant holds in every reachable state.
* `reranked_of_reachable` : every response with status 200 has the results of its texts.
-/

namespace OxEmbed.Rerank

open Holes Reranker

variable {D F Tid : Type}

/-! ### Cross-encoders -/

/-- A reranker with its tokenizer and its sessions. -/
structure CrossEncoder (F : Type) where
  model : RerankerModel
  sessions : Sessions F
  encode : String × String → List UInt32
  encodeBatch : EncodeBatch
  score : List ℤ → F
  /-- The tokenizer gives one encoding for each pair, whatever the others of the batch are. -/
  perPair : ∀ pairs rows, encodeBatch pairs = .ok rows → rows = pairs.map encode
  /-- The score of a row depends on its own tokens. -/
  isLocal : sessions.Local score

namespace CrossEncoder

variable (X : CrossEncoder F)

/-- The ids of a pair. -/
def ids (query doc : String) : List UInt32 := pairIds X.model X.encode query doc

/-- The score of a document. -/
def scoreOf (query doc : String) : F := X.model.pairScore X.score (X.ids query doc)

variable {X} {query : String} {docs : List String} {rows : List (List UInt32)}

theorem tokenizePairs_ok (h : tokenizePairs X.model X.encodeBatch query docs = .ok rows) :
    rows = docs.map (X.ids query) := by
  have hencode : PerPair X.encode X.encodeBatch := fun pairs rows hrows _ =>
    X.perPair pairs rows hrows
  refine tokenizePairs_rows hencode h ?_
  rw [tokenizePairs] at h
  split at h
  next hnil =>
    rw [hnil, ← Except.ok.inj h]
    rfl
  · split at h
    · cases h
    next encodings hbatch =>
      rw [← Except.ok.inj h, List.length_map, X.perPair _ _ hbatch, List.length_map,
        List.length_map]

theorem map_pairScore_ids : (docs.map (X.ids query)).map (X.model.pairScore X.score) =
    docs.map (X.scoreOf query) := by
  rw [List.map_map]
  rfl

end CrossEncoder

/-! ### The backends -/

/-- A worker that has loaded the reranker returns these scores, in some run of the socket
protocol. -/
def WorkerReturns (X : CrossEncoder F) (model query : String) (documents : List String)
    (scores : List F) : Prop :=
  ∃ P : Ipc.Postcard F, P.Lawful ∧ ∃ s w i c call k ok,
    (Ipc.machine P).Reachable (Reranks X.model X.sessions X.encodeBatch w) s ∧
      s.calls i = some call ∧ call.dispatch = .rerank model query documents 0 ∧
      call.phase = .returned (some c) (.ok (.rerank ok)) ∧ s.conns c = some k ∧ k.worker = w ∧
      ok.scores = scores

/-- A batcher of the reranker returns these vectors to a call with these pairs, in some run in
which it coalesces the call with others. -/
def BatcherReturns (X : CrossEncoder F) (tokenIds : List (List UInt32)) (v : List (List F)) :
    Prop :=
  ∃ (R : Type) (_ : Batcher.RatioArith R) (cfg : Batcher.BatcherConfig R)
    (s : Batcher.State (List F)) (item : Batcher.Item),
    (Batcher.machine (List F) cfg).Reachable (Adapted X.model X.sessions) s ∧
      item ∈ s.accepted ∧ item.tokenIds = tokenIds ∧ (item.reply, .ok v) ∈ s.replies

/-- How `dispatch_inference` ends for these pairs. -/
def Infers (X : CrossEncoder F) (tokenIds : List (List UInt32)) : Inference F → Prop
  | .batched (.ok v) => BatcherReturns X tokenIds v
  | .batched (.error _) => True
  | .direct _ r => ∃ cursor, r = scorePairs X.model X.sessions cursor tokenIds

/-- The pairs that the requests ask for, and what the backends of the handler do. -/
def Backed (pairs : Set (String × String)) (X : String → CrossEncoder F) (s : State D F Tid)
    (a : Action D F Tid) : Prop :=
  match a with
  | .begin _ req => ∀ doc ∈ req.texts, (req.query, doc) ∈ pairs
  | .worker t _ (.rerank scores) => ∀ req model, s.phase t = .dispatching req model →
      WorkerReturns (X model) model req.query req.texts scores
  | .tokenized t (.ok ids) => ∀ req model entry slots missIndices missDocs,
      s.phase t = .tokenizing req model entry slots missIndices missDocs →
      tokenizePairs (X model).model (X model).encodeBatch req.query missDocs = .ok ids
  | .inferred t _ i => ∀ req model entry tokenIds,
      s.phase t = .inferring req model entry tokenIds → Infers (X model) tokenIds i
  | _ => True

/-- No pair is another one, split at a different NUL. -/
def Apart (pairs : Set (String × String)) : Prop :=
  ∀ p ∈ pairs, ∀ p' ∈ pairs, ¬ Shifted p p'

/-- Queries without a NUL keep the pairs apart, whatever the documents are. -/
theorem apart_of_plain_queries {pairs : Set (String × String)}
    (h : ∀ p ∈ pairs, '\x00' ∉ p.1.toList) : Apart pairs :=
  fun _ _ p' hp' hshift => h p' hp' hshift.nul_mem

section Backends

variable {X : CrossEncoder F} {query model : String} {documents : List String} {scores : List F}

theorem WorkerReturns.scores_eq (h : WorkerReturns X model query documents scores) :
    scores = documents.map (X.scoreOf query) := by
  obtain ⟨P, hP, s, w, i, c, call, k, ok, hs, hi, hdispatch, hphase, hc, hk, rfl⟩ := h
  have hagree := worker_of_reachable hP X.isLocal hs (fun _ _ h => h) hi hphase hc hk
  obtain ⟨_, _, _, _, tokenIds, hd, htokens, hscores, -⟩ := hagree
  rw [hdispatch] at hd
  obtain ⟨-, rfl, rfl, -⟩ := Ipc.Dispatch.rerank.inj hd
  rw [hscores, CrossEncoder.tokenizePairs_ok htokens, CrossEncoder.map_pairScore_ids]

variable {tokenIds : List (List UInt32)} {v : List (List F)}

/-- The batcher gives a call the scores of its own pairs. -/
theorem BatcherReturns.scores_eq (h : BatcherReturns X tokenIds v) {docCount : ℕ}
    (hcount : tokenIds.length = docCount) :
    batchedScores docCount (.ok v) = .ok (tokenIds.map (X.model.pairScore X.score)) := by
  obtain ⟨R, _, cfg, s, item, hs, hi, rfl, hreply⟩ := h
  obtain ⟨item', hi', heq, hscores, -⟩ := (batched_of_reachable X.isLocal hs).only _ hreply
  -- the calls have different numbers, so the one that was dispatched is this one
  have haccepted : item' ∈ s.accepted := by
    have hperm := (Batcher.fifo_conserved hs).perm
    simp only [Batcher.State.fifo] at hperm
    exact hperm.subset (by simp [hi'])
  have hnodup := (Batcher.numbered_of_reachable hs).nodup_accepted
  obtain rfl := List.inj_on_of_nodup_map hnodup haccepted hi heq
  rw [← hcount]
  exact hscores v rfl

/-- `dispatch_inference` gives the scores, or it fails. -/
theorem Infers.scores_eq {i : Inference F} (h : Infers X tokenIds i)
    (hi : i.result tokenIds.length = .ok scores) :
    scores = tokenIds.map (X.model.pairScore X.score) := by
  have hscores : i.scores tokenIds.length = .ok scores := by
    rw [Inference.result] at hi
    split at hi
    · cases hi
    next hs =>
      split at hi <;> cases hi
      exact hs
  cases i with
  | direct joinErr r =>
    obtain ⟨cursor, rfl⟩ := h
    rw [Inference.scores] at hscores
    cases hpairs : scorePairs X.model X.sessions cursor tokenIds with
    | ok out =>
      rw [hpairs] at hscores
      rw [← Except.ok.inj hscores, scorePairs_of_local X.isLocal hpairs]
    | error failure =>
      rw [hpairs] at hscores
      cases failure <;> cases hscores
  | batched r =>
    cases r with
    | ok v => exact Except.ok.inj (hscores.symm.trans (BatcherReturns.scores_eq h rfl))
    | error e => cases e <;> cases hscores

end Backends

/-! ### The invariant -/

section Invariant

variable [Field F] [LinearOrder F]

/-- A response has the results that the cross-encoder gives for the texts of its request. -/
def Right (exp : F → F) (app : AppState) (X : String → CrossEncoder F) (req : RerankRequest)
    (r : RerankResponse F) : Prop :=
  resolveRerankerName app req.model = .ok r.model ∧
    buildSortedResults (applyNormalize exp (req.texts.map ((X r.model).scoreOf req.query))
        (req.normalize.getD default)) req.topN (echoDocs req.returnDocuments req.texts) =
      some r.results

/-- What a request asks for is among the pairs, and its model is resolved. -/
structure Accepted (app : AppState) (pairs : Set (String × String)) (req : RerankRequest)
    (model : String) : Prop where
  pairs : ∀ doc ∈ req.texts, (req.query, doc) ∈ pairs
  model : resolveRerankerName app req.model = .ok model

/-- The ids of a document of a request. -/
abbrev IdsOf (X : String → CrossEncoder F) (model query doc : String) (ids : List UInt32) : Prop :=
  ids = (X model).ids query doc

omit [Field F] [LinearOrder F] in
theorem map_ids_of_forall₂ {X : String → CrossEncoder F} {model query : String}
    {docs : List String} {rows : List (List UInt32)}
    (h : List.Forall₂ (IdsOf X model query) docs rows) : rows = docs.map ((X model).ids query) := by
  induction h with
  | nil => rfl
  | cons h _ ih => rw [List.map_cons, ← h, ← ih]

/-- What holds at each program point of a handler. -/
def Phase.Ok (exp : F → F) (app : AppState) (pairs : Set (String × String))
    (X : String → CrossEncoder F) : Phase F → Prop
  | .admitted req | .checking req => ∀ doc ∈ req.texts, (req.query, doc) ∈ pairs
  | .resolved req model | .dispatching req model => Accepted app pairs req model
  | .probing req model _ slots =>
    Accepted app pairs req model ∧ Probed (IdsOf X model req.query) req.texts slots
  | .tokenizing req model _ slots missIndices missDocs =>
    Accepted app pairs req model ∧ Probed (IdsOf X model req.query) req.texts slots ∧
      slots.length = req.texts.length ∧ missIndices = holes slots ∧
      (holes slots).mapM (fun i => req.texts[i]?) = some missDocs
  | .splicing req model _ missIter done todo =>
    Accepted app pairs req model ∧
      Filling (IdsOf X model req.query) req.texts missIter done todo
  | .inferring req model _ tokenIds =>
    Accepted app pairs req model ∧ tokenIds = req.texts.map ((X model).ids req.query)
  | .responded req (.ok r) => Right exp app X req r
  | .panicked msg => msg = notLoaded ∧ app.workerPool = false ∧
      ∃ p ∈ app.rerankers, p.2.model = false
  | .idle | .responded _ (.error _) | .abandoned => True

/-- Every entry of the token cache holds the ids of one of the pairs, under its key. -/
def CacheOk (sha256 : ByteArray → D) (pairs : Set (String × String)) (X : String → CrossEncoder F)
    (cache : TokenCache D) : Prop :=
  ∀ key ids, cache.entry key = some ids → ∃ query doc, (query, doc) ∈ pairs ∧
    key.2 = hashPair sha256 query doc ∧ ids = (X key.1).ids query doc

/-- The invariant of the handlers. -/
structure Inv (ext : Externals D F) (app : AppState) (pairs : Set (String × String))
    (X : String → CrossEncoder F) (s : State D F Tid) : Prop where
  phase : ∀ t, (s.phase t).Ok ext.exp app pairs X
  cache : CacheOk ext.sha256 pairs X s.tokenCache
  disabled : app.tokenCacheMaxEntries = 0 → s.tokenCache.inner = none

variable {ext : Externals D F} {app : AppState} {pairs : Set (String × String)}
  {X : String → CrossEncoder F} {s s' : State D F Tid} {req : RerankRequest} {model : String}
  {exp : F → F}

/-- A name that is resolved is one of the configured. -/
theorem isSome_lookup_of_resolve {name : Option String}
    (h : resolveRerankerName app name = .ok model) : (app.rerankers.lookup model).isSome := by
  cases name with
  | some name =>
    rw [resolveRerankerName] at h
    split at h
    · obtain rfl := Except.ok.inj h
      assumption
    · cases h
  | none =>
    match hr : app.rerankers with
    | [] => simp [resolveRerankerName, hr] at h
    | [p] =>
      simp only [resolveRerankerName, hr, Except.ok.injEq] at h
      rw [← h, List.lookup_cons_self]
      rfl
    | p :: q :: l => simp [resolveRerankerName, hr] at h

/-- A request that passes the checks asks for a model that is configured. -/
theorem resolve_of_validate (h : validate app req = .ok model) :
    resolveRerankerName app req.model = .ok model := by
  simp only [validate] at h
  split at h
  · cases h
  split at h
  · cases h
  split at h
  · cases h
  split at h
  · cases h
  next name hname => rw [hname, Except.ok.inj h]

/-- A normalised score. -/
def normalizedScore (exp : F → F) (mode : NormalizeMode) (score : F) : F :=
  match mode with
  | .none => score
  | .sigmoid => sigmoid exp score

theorem applyNormalize_eq_map (exp : F → F) (scores : List F) (mode : NormalizeMode) :
    applyNormalize exp scores mode = scores.map (normalizedScore exp mode) := by
  cases mode
  · rw [applyNormalize.eq_1]
    exact (List.map_id scores).symm
  · rw [applyNormalize.eq_2]
    rfl

omit [Field F] [LinearOrder F] in
/-- The handler has a text for every score that it echoes. -/
theorem not_tooFew_texts {scores : List F} (h : scores.length = req.texts.length) :
    ¬ TooFew (echoDocs req.returnDocuments req.texts) scores.length := by
  rintro ⟨d, hd, hlt⟩
  rw [echoDocs] at hd
  split at hd
  · rw [h, Option.some.inj hd] at hlt
    exact Nat.lt_irrefl _ hlt
  · cases hd

/-- The normalised scores of the texts of a request. -/
def textScores (exp : F → F) (X : String → CrossEncoder F) (req : RerankRequest)
    (model : String) : List F :=
  applyNormalize exp (req.texts.map ((X model).scoreOf req.query)) (req.normalize.getD default)

theorem length_textScores : (textScores exp X req model).length = req.texts.length := by
  rw [textScores, applyNormalize_eq_map, List.length_map, List.length_map]

/-- The score at an index is that of the text at the index. -/
theorem getElem?_textScores {i : ℕ} {score : F}
    (h : (textScores exp X req model)[i]? = some score) : ∃ doc, req.texts[i]? = some doc ∧
      score = normalizedScore exp (req.normalize.getD default)
        ((X model).scoreOf req.query doc) := by
  rw [textScores, applyNormalize_eq_map, List.getElem?_map, List.getElem?_map, Option.map_map] at h
  obtain ⟨doc, hdoc, rfl⟩ := Option.map_eq_some_iff.1 h
  exact ⟨doc, hdoc, rfl⟩

theorem buildSortedResults_textScores (exp : F → F) (X : String → CrossEncoder F)
    (req : RerankRequest) (model : String) :
    buildSortedResults (textScores exp X req model) req.topN
        (echoDocs req.returnDocuments req.texts) =
      some (truncate req.topN (((textScores exp X req model).zipIdx.map
        (echoed (echoDocs req.returnDocuments req.texts))).insertionSort
          fun a b => b.relevanceScore ≤ a.relevanceScore)) := by
  rw [buildSortedResults, mapM_resultOf (not_tooFew_texts length_textScores), Option.map_some]

/-- A handler with one score for each document does not panic. -/
theorem conclude_ok (haccepted : Accepted app pairs req model) (nanos : ℕ) :
    (conclude exp req model nanos (req.texts.map ((X model).scoreOf req.query))).Ok exp app pairs
      X := by
  have hresults := buildSortedResults_textScores exp X req model
  rw [textScores] at hresults
  rw [conclude, hresults]
  exact ⟨haccepted.model, hresults⟩

/-! ### The cache -/

/-- A look-up for one of the pairs finds the ids of the pair. -/
theorem Inv.hit (hsha : Function.Injective ext.sha256)
    (hkeys : app.tokenCacheMaxEntries = 0 ∨ Apart pairs) (h : Inv ext app pairs X s)
    {doc : String} {ids : List UInt32} (hpair : (req.query, doc) ∈ pairs)
    (hget : s.tokenCache.get ext.sha256 model req.query doc = some ids) :
    ids = (X model).ids req.query doc := by
  rcases hkeys with hzero | hapart
  · rw [TokenCache.get, TokenCache.entry, h.disabled hzero] at hget
    cases hget
  · obtain ⟨query', doc', hmem, hkey, rfl⟩ := h.cache _ _ hget
    rcases (hashPair_eq_iff hsha).1 hkey with heq | hshift | hshift
    · obtain ⟨rfl, rfl⟩ := Prod.mk.inj heq
      rfl
    · exact absurd hshift (hapart _ hpair _ hmem)
    · exact absurd hshift (hapart _ hmem _ hpair)

variable [DecidableEq D]

omit [Field F] [LinearOrder F] in
/-- An insert of the ids of one of the pairs. -/
theorem CacheOk.insert {cache : TokenCache D} (h : CacheOk ext.sha256 pairs X cache)
    {query doc : String} (hpair : (query, doc) ∈ pairs) :
    CacheOk ext.sha256 pairs X (cache.insert ext.sha256 model query doc ((X model).ids query doc))
    := by
  intro key ids hentry
  rw [TokenCache.entry_insert] at hentry
  split at hentry
  next hkey =>
    obtain ⟨_, -, rfl⟩ := Option.map_eq_some_iff.1 hentry
    exact ⟨query, doc, hpair, congrArg Prod.snd hkey, by rw [hkey]⟩
  · exact h key ids hentry

/-! ### Every step keeps the invariant -/

variable [DecidableEq Tid] {a : Action D F Tid}

omit [DecidableEq D] in
/-- A step of one handler. -/
theorem Inv.phase_update (h : Inv ext app pairs X s) {t : Tid} {p : Phase F}
    (hphase : s'.phase = Function.update s.phase t p) (hp : p.Ok ext.exp app pairs X) (u : Tid) :
    (s'.phase u).Ok ext.exp app pairs X := by
  rw [hphase]
  by_cases hu : u = t
  · subst hu
    rwa [Function.update_self]
  · rw [Function.update_of_ne hu]
    exact h.phase u

omit [DecidableEq D] in
/-- A step of one handler that leaves the cache. -/
theorem Inv.update (h : Inv ext app pairs X s) {t : Tid} {p : Phase F}
    (hphase : s'.phase = Function.update s.phase t p) (hcache : s'.tokenCache = s.tokenCache)
    (hp : p.Ok ext.exp app pairs X) : Inv ext app pairs X s' where
  phase := h.phase_update hphase hp
  cache := hcache ▸ h.cache
  disabled := hcache ▸ h.disabled

/-- **Step lemma.** Every step keeps the invariant. -/
theorem Inv.step (hsha : Function.Injective ext.sha256)
    (hkeys : app.tokenCacheMaxEntries = 0 ∨ Apart pairs) (h : Inv ext app pairs X s)
    (hbacked : Backed pairs X s a) (hstep : Rerank.step ext app s a = some s') :
    Inv ext app pairs X s' := by
  have hok {t : Tid} {p : Phase F} (hp : s.phase t = p) : p.Ok ext.exp app pairs X :=
    hp ▸ h.phase t
  cases trans_of_step hstep with
  | uncapped | acquire => exact h.update rfl rfl hbacked
  | refuse | turnAway | reject | workerFailed | tokenizeFailed | inferFailed | abandon =>
    exact h.update rfl rfl trivial
  | pass hp => exact h.update rfl rfl (hok hp :)
  | resolve hp hv => exact h.update rfl rfl ⟨hok hp, resolve_of_validate hv⟩
  | noEntry hp he =>
    have hsome := isSome_lookup_of_resolve (hok hp).model
    rw [he] at hsome
    cases hsome
  | dispatch hp => exact h.update rfl rfl (hok hp :)
  | probe hp => exact h.update rfl rfl ⟨hok hp, .nil _ _⟩
  | @notLoaded t req model entry hp he hw hm =>
    refine h.update rfl rfl ⟨rfl, hw, (model, entry), ?_, hm⟩
    obtain ⟨l₁, l₂, heq, -⟩ := List.lookup_eq_some_iff.1 he
    exact heq ▸ List.mem_append_right _ List.mem_cons_self
  | @lookup t req model entry slots doc hp hd =>
    obtain ⟨haccepted, hprobed⟩ := hok hp
    refine h.update rfl rfl ⟨haccepted, hprobed.concat hd fun ids hget => ?_⟩
    exact h.hit hsha hkeys (haccepted.pairs doc (List.mem_of_getElem? hd)) hget
  | @allHits t req model entry slots tokenIds hp hd hh hids =>
    obtain ⟨haccepted, hprobed⟩ := hok hp
    have hlen := Nat.le_antisymm hprobed.length (List.getElem?_eq_none_iff.1 hd)
    obtain ⟨rows, hrows, hall⟩ := hprobed.values hlen (isSome_of_holes_eq_nil hh)
    obtain rfl := Option.some.inj (hids.symm.trans hrows)
    exact h.update rfl rfl ⟨haccepted, map_ids_of_forall₂ hall⟩
  | @openHit t req model entry slots hp hd hh hids =>
    obtain ⟨-, hprobed⟩ := hok hp
    have hlen := Nat.le_antisymm hprobed.length (List.getElem?_eq_none_iff.1 hd)
    obtain ⟨rows, hrows, -⟩ := hprobed.values hlen (isSome_of_holes_eq_nil hh)
    cases hids.symm.trans hrows
  | @tokenize t req model entry slots missDocs hp hd hm =>
    obtain ⟨haccepted, hprobed⟩ := hok hp
    have hlen := Nat.le_antisymm hprobed.length (List.getElem?_eq_none_iff.1 hd)
    exact h.update rfl rfl ⟨haccepted, hprobed, hlen, rfl, hm⟩
  | @missOutside t req model entry slots hp hd hm =>
    obtain ⟨-, hprobed⟩ := hok hp
    obtain ⟨missDocs, hdocs⟩ := hprobed.exists_opened
    cases hm.symm.trans hdocs
  | @insert t req model entry ids origIdx missIter done j todo doc hp hd =>
    obtain ⟨haccepted, hfilling⟩ := hok hp
    obtain ⟨-, doc', hdoc', hids, hrest⟩ := hfilling.fill
    obtain rfl := Option.some.inj (hd.symm.trans hdoc')
    obtain rfl : ids = (X model).ids req.query doc := hids
    have hpair := haccepted.pairs doc (List.mem_of_getElem? hd)
    refine ⟨h.phase_update rfl ⟨haccepted, hrest⟩, h.cache.insert hpair, fun hzero => ?_⟩
    change (s.tokenCache.insert ext.sha256 model req.query doc _).inner = none
    rw [TokenCache.insert, h.disabled hzero]
    rfl
  | @insertOutside t req model entry ids origIdx missIter done j todo hp hd =>
    obtain ⟨-, hfilling⟩ := hok hp
    obtain ⟨-, doc, hdoc, -, -⟩ := hfilling.fill
    cases hd.symm.trans hdoc
  | keep hp =>
    obtain ⟨haccepted, hfilling⟩ := hok hp
    exact h.update rfl rfl ⟨haccepted, hfilling.keep⟩
  | leaveOpen hp =>
    obtain ⟨-, hfilling⟩ := hok hp
    exact absurd rfl hfilling.rows_ne_nil
  | @spliced t req model entry missIter done tokenIds hp hids =>
    obtain ⟨haccepted, hfilling⟩ := hok hp
    obtain ⟨rows, hrows, hall⟩ := hfilling.values
    obtain rfl := Option.some.inj (hids.symm.trans hrows)
    exact h.update rfl rfl ⟨haccepted, map_ids_of_forall₂ hall⟩
  | openSlot hp hids =>
    obtain ⟨-, hfilling⟩ := hok hp
    obtain ⟨rows, hrows, -⟩ := hfilling.values
    cases hids.symm.trans hrows
  | @workerScored t nanos o req model scores hp ho =>
    cases o with
    | rerank scores' =>
      obtain rfl := Except.ok.inj ho
      have hscores := WorkerReturns.scores_eq (hbacked req model hp)
      exact h.update rfl rfl (hscores ▸ conclude_ok (hok hp) nanos)
    | _ => cases ho
  | @tokenized t o req model entry slots missIndices missDocs ids hp ho =>
    obtain ⟨haccepted, hprobed, hlen, rfl, hdocs⟩ := hok hp
    cases o with
    | ok ids' =>
      obtain rfl := Except.ok.inj ho
      have hids := CrossEncoder.tokenizePairs_ok (hbacked req model entry slots _ missDocs hp)
      refine h.update rfl rfl ⟨haccepted, .start hprobed hlen hdocs ?_⟩
      rw [hids]
      exact List.forall₂_map_right_iff.2 (List.forall₂_same.2 fun _ _ => rfl)
    | _ => cases ho
  | @scored t nanos i req model entry tokenIds scores hp hi =>
    obtain ⟨haccepted, hids⟩ := hok hp
    have hlen : req.documents.length = tokenIds.length := by
      rw [hids, RerankRequest.texts, List.length_map, List.length_map]
    have hscores := (hbacked req model entry tokenIds hp).scores_eq (hlen ▸ hi)
    rw [hids, CrossEncoder.map_pairScore_ids] at hscores
    exact h.update rfl rfl (hscores ▸ conclude_ok haccepted nanos)
  | evict key =>
    refine ⟨h.phase, fun key' ids hentry => ?_, fun hzero => ?_⟩
    · exact h.cache key' ids (TokenCache.entry_of_evict hentry)
    · rw [TokenCache.evict, h.disabled hzero]
      rfl
  | shutdown => exact ⟨h.phase, h.cache, h.disabled⟩

/-- **Run lemma.** The invariant holds in every reachable state. -/
theorem inv_of_reachable (hsha : Function.Injective ext.sha256)
    (hkeys : app.tokenCacheMaxEntries = 0 ∨ Apart pairs)
    (hs : (machine Tid ext app).Reachable (Backed pairs X) s) : Inv ext app pairs X s := by
  refine hs.invariant ?_ fun s a s' h hbacked hstep => h.step hsha hkeys hbacked hstep
  rintro _ rfl
  refine ⟨fun _ => trivial, fun key ids hentry => ?_, fun hzero => ?_⟩
  · rw [start, TokenCache.entry_new] at hentry
    cases hentry
  · rw [start, TokenCache.new, if_pos hzero]

/-! ### What the responses contain -/

/-- The entries of a list of results: each belongs to its own document, and they are sorted. -/
structure Entries (exp : F → F) (X : CrossEncoder F) (req : RerankRequest)
    (results : List (RerankResult F)) : Prop where
  /-- There is one for each document, or as many as the request asks for. -/
  length : results.length = req.topN.elim req.documents.length (min · req.documents.length)
  /-- They carry the score and the text of their documents. -/
  own : ∀ res ∈ results, ∃ doc, req.texts[res.index]? = some doc ∧
    res.relevanceScore =
      normalizedScore exp (req.normalize.getD default) (X.scoreOf req.query doc) ∧
    res.document = if req.returnDocuments then some doc else none
  /-- No document comes twice, the largest score is first, and documents with the same score keep
  their order. -/
  sorted : results.Pairwise fun a b => b.relevanceScore < a.relevanceScore ∨
    a.relevanceScore = b.relevanceScore ∧ a.index < b.index

/-- What the responses of the endpoint contain. -/
structure Reranked (ext : Externals D F) (app : AppState) (X : String → CrossEncoder F)
    (s : State D F Tid) : Prop where
  /-- A response with status 200 has the results that its cross-encoder gives for its texts. -/
  results : ∀ t req r, s.phase t = .responded req (.ok r) → Right ext.exp app X req r
  entries : ∀ t req r, s.phase t = .responded req (.ok r) →
    Entries ext.exp (X r.model) req r.results
  /-- A handler panics only when it needs a session that is not loaded. -/
  panics : ∀ t msg, s.phase t = .panicked msg → msg = notLoaded ∧ app.workerPool = false ∧
    ∃ p ∈ app.rerankers, p.2.model = false

omit [Field F] [LinearOrder F] [DecidableEq D] [DecidableEq Tid] in
theorem truncate_sublist {α : Type} (topN : Option ℕ) (l : List α) :
    (truncate topN l).Sublist l := by
  cases topN with
  | none => exact List.Sublist.refl l
  | some n => exact List.take_sublist n l

omit [Field F] [LinearOrder F] [DecidableEq D] [DecidableEq Tid] in
theorem length_truncate {α : Type} (topN : Option ℕ) (l : List α) :
    (truncate topN l).length = topN.elim l.length (min · l.length) := by
  cases topN with
  | none => rfl
  | some n => exact List.length_take

omit [DecidableEq D] [DecidableEq Tid] in
theorem Right.entries {r : RerankResponse F} (h : Right exp app X req r) :
    Entries exp (X r.model) req r.results := by
  have hresults := buildSortedResults_textScores exp X req r.model
  rw [textScores, h.2, ← textScores] at hresults
  generalize hbefore : (textScores exp X req r.model).zipIdx.map
    (echoed (echoDocs req.returnDocuments req.texts)) = before at hresults
  have hsub : r.results.Sublist
      (before.insertionSort fun a b => b.relevanceScore ≤ a.relevanceScore) := by
    rw [Option.some.inj hresults]
    exact truncate_sublist _ _
  have hlen : (before.insertionSort fun a b => b.relevanceScore ≤ a.relevanceScore).length =
      req.documents.length := by
    rw [List.length_insertionSort, ← hbefore, List.length_map, List.length_zipIdx,
      length_textScores, RerankRequest.texts, List.length_map]
  refine ⟨?_, fun res hres => ?_, ?_⟩
  · rw [Option.some.inj hresults, length_truncate, hlen]
  · have hmem := (List.perm_insertionSort _ _).subset (hsub.subset hres)
    rw [← hbefore] at hmem
    obtain ⟨⟨score, i⟩, hp, rfl⟩ := List.mem_map.1 hmem
    obtain ⟨doc, hdoc, rfl⟩ := getElem?_textScores (List.mem_zipIdx_iff_getElem?.1 hp)
    refine ⟨doc, hdoc, rfl, ?_⟩
    rw [echoed, echoDocs]
    split <;> simp [hdoc]
  · refine List.Pairwise.sublist hsub (Ranking.pairwise_before_insertionSort _ _ _ ?_)
    rw [← List.pairwise_map, ← hbefore, map_index_echoed]
    exact List.pairwise_lt_range

/-- **Every response of the rerank endpoint with status 200 has the results that the cross-encoder
gives for its texts**, in every interleaving of the requests, whatever is cached or evicted,
through a worker, through a batcher or in process. -/
theorem reranked_of_reachable (hsha : Function.Injective ext.sha256)
    (hkeys : app.tokenCacheMaxEntries = 0 ∨ Apart pairs)
    (hs : (machine Tid ext app).Reachable (Backed pairs X) s) : Reranked ext app X s := by
  have h := inv_of_reachable hsha hkeys hs
  have hright {t : Tid} {req : RerankRequest} {r : RerankResponse F}
      (hp : s.phase t = .responded req (.ok r)) : Right ext.exp app X req r := by
    have hok := h.phase t
    rwa [hp] at hok
  refine ⟨fun t req r hp => hright hp, fun t req r hp => (hright hp).entries, fun t msg hp => ?_⟩
  have hok := h.phase t
  rwa [hp] at hok

end Invariant

/-! ### Two requests that share a document -/

/-- A cross-encoder whose score of a pair is the sum of the ids that the mask shows. -/
def sumEncoder : CrossEncoder ℚ where
  model := shortModel
  sessions := sumSessions
  encode := charIds
  encodeBatch pairs := .ok (pairs.map charIds)
  score row := (row.sum : ℤ)
  perPair _ _ h := (Except.ok.inj h).symm
  isLocal := sumSessions_local

def plainExternals : Externals (Array UInt8) ℚ := ⟨ByteArray.data, fun _ => 1⟩

/-- A request for raw scores with the documents. -/
def rawRequest (docs : List String) : RerankRequest :=
  ⟨none, "q", docs.map .text, some 2, true, some .none⟩

/-- The queries have no NUL, and the scores are those of a blocking task. -/
def inProcess (s : State (Array UInt8) ℚ ℕ) : Action (Array UInt8) ℚ ℕ → Bool
  | .begin _ req => !req.query.toList.contains '\x00'
  | .tokenized t (.ok ids) =>
    match s.phase t with
    | .tokenizing req _ _ _ _ missDocs =>
      tokenizePairs shortModel sumEncoder.encodeBatch req.query missDocs = .ok ids
    | _ => false
  | .inferred t _ (.direct _ r) =>
    match s.phase t with
    | .inferring _ _ _ tokenIds => r = scorePairs shortModel sumSessions 0 tokenIds
    | _ => false
  | .worker .. | .inferred .. => false
  | _ => true

theorem backed_of_inProcess {s : State (Array UInt8) ℚ ℕ} {a : Action (Array UInt8) ℚ ℕ}
    (h : inProcess s a = true) : Backed {p | '\x00' ∉ p.1.toList} (fun _ => sumEncoder) s a := by
  cases a with
  | begin t req => exact fun doc _ => by simpa [inProcess] using h
  | worker t nanos o => cases h
  | tokenized t o =>
    cases o with
    | ok ids =>
      intro req model entry slots missIndices missDocs hp
      simp only [inProcess, hp, decide_eq_true_eq] at h
      exact h
    | _ => trivial
  | inferred t nanos i =>
    intro req model entry tokenIds hp
    cases i with
    | batched r => cases h
    | direct joinErr r =>
      simp only [inProcess, hp, decide_eq_true_eq] at h
      exact ⟨0, h⟩
  | _ => trivial

/-- The second request finds a document of the first one in the token cache, and a third request
that comes in between finds no permit. -/
theorem reranked_sharedDocument :
    ∃ s, (machine ℕ plainExternals onePermit).Reachable
        (Backed {p | '\x00' ∉ p.1.toList} fun _ => sumEncoder) s ∧
      s.phase 1 = .responded (rawRequest ["a"]) (.error capReached) ∧
      s.phase 2 = .responded (rawRequest ["c", "b", "d"]) (.ok ⟨"rrk_1f", "m",
        [⟨2, 215, some "d"⟩, ⟨0, 214, some "c"⟩]⟩) ∧
      Reranked plainExternals onePermit (fun _ => sumEncoder) s := by
  obtain ⟨s, hs, h₁, h₂⟩ :
      ∃ s ∈ (machine ℕ plainExternals onePermit).runUnder (fun s a => inProcess s a = true)
          (start onePermit)
          [.begin 0 (rawRequest ["a", "b"]), .advance 0, .advance 0, .advance 0, .advance 0,
            .advance 0, .advance 0, .tokenized 0 (.ok [[0, 113, 2, 97], [0, 113, 2, 98]]),
            .advance 0, .advance 0,
            .begin 1 (rawRequest ["a"]), .advance 0,
            .inferred 0 30 (.direct "" (.ok [212, 213])),
            .begin 2 (rawRequest ["c", "b", "d"]), .advance 2, .advance 2, .advance 2, .advance 2,
            .advance 2, .advance 2, .advance 2,
            .tokenized 2 (.ok [[0, 113, 2, 99], [0, 113, 2, 100]]), .advance 2, .advance 2,
            .advance 2, .advance 2,
            .inferred 2 31 (.direct "" (.ok [214, 213, 215]))],
        s.phase 1 = .responded (rawRequest ["a"]) (.error capReached) ∧
          s.phase 2 = .responded (rawRequest ["c", "b", "d"]) (.ok ⟨"rrk_1f", "m",
            [⟨2, 215, some "d"⟩, ⟨0, 214, some "c"⟩]⟩) := by
    decide +kernel
  have hreach := (Machine.Reachable.of_runUnder rfl hs).strengthen
    fun _ _ _ _ h _ => backed_of_inProcess h
  exact ⟨s, hreach, h₁, h₂, reranked_of_reachable injective_data
    (.inr (apart_of_plain_queries fun _ h => h)) hreach⟩

end OxEmbed.Rerank

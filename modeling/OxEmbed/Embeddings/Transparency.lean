import OxEmbed.Embeddings.Handler

/-!
# The embedding cache is transparent

Whatever is cached, evicted, duplicated or in flight, a response with status 200 has one vector for
each input, in input order, and each vector was computed for the model, the input type and the text
of its position. When inference is a function `f` of the model and the text, the response is the
one that inference alone would give.

The state of a request in flight is a splice (`OxEmbed.Splice`) whose relation is membership in the
history `State.computed`. That history only grows, so the splices of the other requests survive
every step.

## Main definitions

* `Computed` : the vectors computed for a model, an input type and a text.
* `Phase.Ok`, `CacheOk`, `Inv` : the invariant.
* `Deterministic` : the calls of the backend that return enough vectors compute `f`.
* `CacheTransparent` : what the responses contain.

## Main results

* `inv_of_reachable` : the invariant holds in every reachable state.
* `cacheTransparent_of_reachable` : the cache is transparent.
-/

namespace OxEmbed.Embeddings

open Splice

variable {D V Tid : Type}

/-! ### The invariant -/

/-- The history of successful inference. -/
abbrev History (V : Type) := List ((String × InputType × String) × V)

/-- The vector was computed for the model and input type of the request and for the text. -/
def Computed (app : AppState) (computed : History V) (req : EmbedRequest) (text : String)
    (v : V) : Prop :=
  ((req.modelName app, req.kind, text), v) ∈ computed

/-- What holds at each program point of a handler. -/
def Phase.Ok (ext : Externals D V) (app : AppState) (computed : History V) : Phase V → Prop
  | .partition req _ k cached pending =>
    PlainName (req.modelName app) ∧ k ≤ req.texts.length ∧
      Partitioned (Computed app computed req) req.texts k cached pending
  | .infer req _ cached pending pendingTexts =>
    PlainName (req.modelName app) ∧ pendingTexts.Perm (pending.map Prod.fst) ∧
      Partitioned (Computed app computed req) req.texts req.texts.length cached pending
  | .scatter req cached pending todo _ =>
    PlainName (req.modelName app) ∧
      Spliced (Computed app computed req) req.texts cached pending todo
  | .responded req (.ok r) => ∃ vectors totalTokens,
      .ok r = okResponse ext app req vectors totalTokens ∧
        List.Forall₂ (Computed app computed req) req.texts vectors
  | .panicked msg => msg = notLoaded
  | .idle | .responded _ (.error _) | .abandoned => True

/-- Every entry of the cache was computed for the model, the input type and the text of its
key. -/
def CacheOk (ext : Externals D V) (cache : EmbeddingCache D V) (computed : History V) : Prop :=
  ∀ model text v, cache.get ext.hashText model text = some v →
    ∃ name kind text', PlainName name ∧ model = cacheModelKey name kind ∧
      ext.hashText text = ext.hashText text' ∧ ((name, kind, text'), v) ∈ computed

/-- The program points of a request that may have inserted into the cache. -/
def Phase.Inserting : Phase V → Prop
  | .scatter .. | .responded _ (.ok _) => True
  | _ => False

/-- The invariant of the handlers. -/
structure Inv (ext : Externals D V) (app : AppState) (s : State D V Tid) : Prop where
  phase : ∀ t, (s.phase t).Ok ext app s.computed
  cache : CacheOk ext s.cache s.computed
  inserters : ∀ t ∈ s.inserters, (s.phase t).Inserting

variable {ext : Externals D V} {app : AppState}

theorem Phase.Ok.mono {computed computed' : History V} {p : Phase V} (h : p.Ok ext app computed)
    (hsub : computed ⊆ computed') : p.Ok ext app computed' := by
  have hR (req : EmbedRequest) (text : String) (v : V) (hv : Computed app computed req text v) :
      Computed app computed' req text v := hsub hv
  cases p with
  | «partition» req => exact ⟨h.1, h.2.1, h.2.2.mono (hR req)⟩
  | infer req => exact ⟨h.1, h.2.1, h.2.2.mono (hR req)⟩
  | scatter req => exact ⟨h.1, h.2.mono (hR req)⟩
  | responded req r =>
    cases r with
    | ok r =>
      obtain ⟨vectors, totalTokens, heq, hall⟩ := h
      exact ⟨vectors, totalTokens, heq, hall.imp (hR req)⟩
    | error e => trivial
  | idle | abandoned => trivial
  | panicked msg => exact h

/-- When nothing is left to fill the handler responds with right vectors. -/
theorem respond_ok (ext : Externals D V) {computed : History V} {req : EmbedRequest}
    {cached : List (Option V)} {pending : List (String × List ℕ)}
    (h : Spliced (Computed app computed req) req.texts cached pending []) (totalTokens : ℕ)
    (bug : String) : ∃ vectors,
      respond ext app req cached totalTokens bug =
          .responded req (okResponse ext app req vectors totalTokens) ∧
        List.Forall₂ (Computed app computed req) req.texts vectors := by
  obtain ⟨vectors, hcollect, hall⟩ := h.values
  exact ⟨vectors, by rw [respond, hcollect], hall⟩

/-- A request that passes the checks is for a model of the configuration. -/
theorem plainName_of_accept (hplain : ∀ p ∈ app.models, PlainName p.1) {shutdown : Bool}
    {req : EmbedRequest} {entry : ModelEntry} (h : accept app shutdown req = .ok entry) :
    PlainName (req.modelName app) := by
  simp only [accept] at h
  split at h
  · cases h
  split at h
  · cases h
  split at h
  · cases h
  split at h
  · rename_i hlookup
    obtain ⟨l₁, l₂, heq, -⟩ := List.lookup_eq_some_iff.mp hlookup
    exact hplain _ (heq ▸ List.mem_append_right _ List.mem_cons_self)
  · cases h

/-- A look-up of a request finds a vector computed for it. -/
theorem CacheOk.computed {cache : EmbeddingCache D V} {computed : History V}
    (h : CacheOk ext cache computed) (hash : Function.Injective ext.hashText)
    {req : EmbedRequest} (hname : PlainName (req.modelName app)) {text : String} {v : V}
    (hv : cache.get ext.hashText (req.cacheKey app) text = some v) :
    Computed app computed req text v := by
  obtain ⟨name, kind, text', hplain, hkey, htext, hmem⟩ := h _ _ _ hv
  obtain ⟨rfl, rfl⟩ := cacheModelKey_inj hname hplain hkey
  obtain rfl := hash htext
  exact hmem

theorem CacheOk.mono {cache : EmbeddingCache D V} {computed computed' : History V}
    (h : CacheOk ext cache computed) (hsub : computed ⊆ computed') :
    CacheOk ext cache computed' := by
  intro model text v hv
  obtain ⟨name, kind, text', hplain, hkey, htext, hmem⟩ := h model text v hv
  exact ⟨name, kind, text', hplain, hkey, htext, hsub hmem⟩

/-- Inserting a vector computed for the request keeps the entries of the cache right. -/
theorem CacheOk.insert [DecidableEq D] {cache : EmbeddingCache D V} {computed : History V}
    (h : CacheOk ext cache computed) {req : EmbedRequest} (hname : PlainName (req.modelName app))
    {text : String} {v : V} (hv : Computed app computed req text v) :
    CacheOk ext (cache.insert ext.hashText (req.cacheKey app) text v) computed := by
  intro model' text' w hw
  rcases EmbeddingCache.get_insert hw with ⟨hmodel, htext, rfl⟩ | hold
  · exact ⟨_, _, _, hname, hmodel, htext, hv⟩
  · exact h model' text' w hold

/-! ### Every step keeps the invariant -/

variable [DecidableEq Tid] {s s' : State D V Tid} {a : Action D V Tid}

/-- A step of one handler. -/
theorem Inv.update (h : Inv ext app s) {t : Tid} {p : Phase V}
    (hphase : s'.phase = Function.update s.phase t p) (hp : p.Ok ext app s'.computed)
    (hsub : s.computed ⊆ s'.computed) (hcache : CacheOk ext s'.cache s'.computed)
    (hins : ∀ u ∈ s'.inserters, u ∈ s.inserters ∨ u = t)
    (hinserting : t ∈ s'.inserters → p.Inserting) : Inv ext app s' := by
  refine ⟨fun u => ?_, hcache, fun u hu => ?_⟩
  · rw [hphase]
    by_cases ht : u = t
    · subst ht
      rwa [Function.update_self]
    · rw [Function.update_of_ne ht]
      exact (h.phase u).mono hsub
  · rw [hphase]
    by_cases ht : u = t
    · subst ht
      rw [Function.update_self]
      exact hinserting hu
    · rw [Function.update_of_ne ht]
      exact h.inserters u ((hins u hu).resolve_right ht)

/-- A step of one handler that changes no more than its program point. -/
theorem Inv.setPhase (h : Inv ext app s) {t : Tid} {p : Phase V} (hp : p.Ok ext app s.computed)
    (hinserting : (s.phase t).Inserting → p.Inserting) : Inv ext app (s.setPhase t p) :=
  h.update rfl hp (List.Subset.refl _) h.cache (fun _ hu => .inl hu) fun ht =>
    hinserting (h.inserters t ht)

variable [DecidableEq D]

/-- **Step lemma.** Every step keeps the invariant. -/
theorem Inv.step (hash : Function.Injective ext.hashText)
    (hplain : ∀ p ∈ app.models, PlainName p.1) (h : Inv ext app s)
    (hstep : Embeddings.step ext app s a = some s') : Inv ext app s' := by
  have hok {t : Tid} {p : Phase V} (hp : s.phase t = p) : p.Ok ext app s.computed := hp ▸ h.phase t
  have hnot {t : Tid} {p q : Phase V} (hp : s.phase t = p) (hn : ¬ p.Inserting) :
      (s.phase t).Inserting → q.Inserting := fun hi => absurd (hp ▸ hi) hn
  cases trans_of_step hstep with
  | refuse hp => exact h.setPhase trivial (hnot hp id)
  | @probe t req entry hp ha =>
    exact h.setPhase ⟨plainName_of_accept hplain ha, Nat.zero_le _, .start _ _⟩ (hnot hp id)
  | @hit t req entry k cached pending text v hp ht hv =>
    obtain ⟨hname, -, hpart⟩ := hok hp
    have hlt := (List.getElem?_eq_some_iff.mp ht).1
    exact h.setPhase ⟨hname, hlt, hpart.hit ht (h.cache.computed hash hname hv)⟩ (hnot hp id)
  | @miss t req entry k cached pending text hp ht hv =>
    obtain ⟨hname, -, hpart⟩ := hok hp
    have hlt := (List.getElem?_eq_some_iff.mp ht).1
    exact h.setPhase ⟨hname, hlt, hpart.miss ht⟩ (hnot hp id)
  | @allHits t req entry k cached hp ht =>
    obtain ⟨hname, hle, hpart⟩ := hok hp
    obtain rfl : k = req.texts.length := Nat.le_antisymm hle (List.getElem?_eq_none_iff.mp ht)
    obtain ⟨vectors, hr, hall⟩ := respond_ok ext (.of_no_groups hpart) 0 "all hits"
    rw [hr]
    exact h.setPhase ⟨vectors, 0, rfl, hall⟩ (hnot hp id)
  | @infer t req entry k cached pending pendingTexts hp hk hperm =>
    obtain ⟨hname, hle, hpart⟩ := hok hp
    obtain rfl : k = req.texts.length := Nat.le_antisymm hle hk
    exact h.setPhase ⟨hname, hperm, hpart⟩ (hnot hp id)
  | notLoaded hp => exact h.setPhase rfl (hnot hp id)
  | failed hp => exact h.setPhase trivial (hnot hp id)
  | @inferred t req entry cached pending pendingTexts b vectors totalTokens hp hb =>
    obtain ⟨hname, hperm, hpart⟩ := hok hp
    have hsub : s.computed ⊆ s.computed ++ record app req pendingTexts vectors :=
      List.subset_append_left _ _
    refine h.update rfl ?_ hsub (h.cache.mono hsub) (fun _ hu => .inl hu) fun ht => ?_
    · by_cases hlen : vectors.length = pendingTexts.length
      · rw [afterInference, if_neg (not_not.mpr hlen)]
        refine ⟨hname, .of_partitioned (hpart.mono fun _ _ hv => hsub hv) hperm hlen.ge ?_⟩
        intro p hp
        refine List.mem_append_right _ ?_
        rw [record, if_neg (not_not.mpr hlen)]
        exact List.mem_map_of_mem hp
      · rw [afterInference, if_pos hlen]
        trivial
    · exact hnot hp id (h.inserters t ht)
  | @insert t req cached pending text v todo totalTokens ps hp hps =>
    obtain ⟨hname, hspliced⟩ := hok hp
    obtain ⟨qs, hqs, hfill⟩ := hspliced.fill
    obtain rfl := Option.some.inj (hps.symm.trans hqs)
    have hv := hspliced.right text v List.mem_cons_self
    refine h.update rfl ⟨hname, hfill⟩ (List.Subset.refl _) (h.cache.insert hname hv)
      (fun u hu => ?_) fun _ => trivial
    exact (List.mem_append.mp hu).imp_right List.mem_singleton.mp
  | @unknownKey t req cached pending text v todo totalTokens hp hps =>
    obtain ⟨-, hspliced⟩ := hok hp
    obtain ⟨qs, hqs, -⟩ := hspliced.fill
    cases hps.symm.trans hqs
  | @finish t req cached pending totalTokens hp =>
    obtain ⟨-, hspliced⟩ := hok hp
    obtain ⟨vectors, hr, hall⟩ := respond_ok ext hspliced totalTokens
      "every position filled"
    rw [hr]
    exact h.setPhase ⟨vectors, totalTokens, rfl, hall⟩ fun _ => trivial
  | abandon hp => exact h.setPhase trivial (hnot hp id)
  | evict key =>
    exact ⟨h.phase, fun model text v hv => h.cache model text v (EmbeddingCache.get_evict hv),
      h.inserters⟩
  | shutdown => exact ⟨h.phase, h.cache, h.inserters⟩

variable {C : State D V Tid → Action D V Tid → Prop}

/-- **Run lemma.** The invariant holds in every reachable state. -/
theorem inv_of_reachable (hash : Function.Injective ext.hashText)
    (hplain : ∀ p ∈ app.models, PlainName p.1) (hs : (machine Tid ext app).Reachable C s) :
    Inv ext app s := by
  refine hs.invariant ?_ fun s a s' h _ hstep => h.step hash hplain hstep
  rintro _ rfl
  refine ⟨fun t => trivial, fun model text v hv => ?_, nofun⟩
  rw [EmbeddingCache.get_new] at hv
  cases hv

/-! ### Deterministic inference -/

/-- Inference that returns one vector for each text computes the function `f` of the model and
the text. -/
def Deterministic (app : AppState) (f : String → String → V) (s : State D V Tid)
    (a : Action D V Tid) : Prop :=
  match a with
  | .backend t b =>
    match s.phase t with
    | .infer req _ _ _ pendingTexts =>
      match b.result pendingTexts with
      | .ok (vectors, _) => vectors.length = pendingTexts.length →
          vectors = pendingTexts.map (f (req.modelName app))
      | .error _ => True
    | _ => True
  | _ => True

omit [DecidableEq D] [DecidableEq Tid] in
instance [DecidableEq V] (f : String → String → V) (s : State D V Tid) (a : Action D V Tid) :
    Decidable (Deterministic app f s a) := by
  unfold Deterministic
  split
  · split
    · split <;> exact inferInstance
    · exact inferInstance
  · exact inferInstance

/-- Every computed vector is the value of `f` at its model and text. -/
theorem computed_eq {f : String → String → V}
    (hs : (machine Tid ext app).Reachable (Deterministic app f) s) :
    ∀ p ∈ s.computed, p.2 = f p.1.1 p.1.2.2 := by
  refine hs.invariant (P := fun s => ∀ p ∈ s.computed, p.2 = f p.1.1 p.1.2.2) ?_ ?_
  · rintro _ rfl p hp
    cases hp
  · intro s a s' h hf hstep p hp
    cases trans_of_step hstep with
    | @inferred t req entry cached pending pendingTexts b vectors totalTokens hphase hb =>
      rcases List.mem_append.mp hp with hp | hp
      · exact h p hp
      · simp only [Deterministic, hphase, hb] at hf
        rw [record] at hp
        split at hp
        · cases hp
        · rename_i hlen
          rw [hf (not_not.mp hlen)] at hp
          obtain ⟨q, hq, rfl⟩ := List.mem_map.mp hp
          rw [← List.map_prod_left_eq_zip] at hq
          obtain ⟨text, -, rfl⟩ := List.mem_map.mp hq
          rfl
    | _ => exact h p hp

/-! ### What the responses contain -/

/-- What the responses contain, and which requests change the cache. -/
structure CacheTransparent (ext : Externals D V) (app : AppState) (f : String → String → V)
    (s : State D V Tid) : Prop where
  /-- A response with status 200 has the vectors of the inputs, in input order. -/
  data : ∀ t req r, s.phase t = .responded req (.ok r) →
    r.data = buildData ext.encodeBase64 (req.texts.map (f (req.modelName app))) req.format ∧
      r.data.length = req.texts.length
  /-- Every vector in it was computed for the model and the input type of the request and for the
  text at its position. -/
  origin : ∀ t req r, s.phase t = .responded req (.ok r) → ∃ vectors,
    r.data = buildData ext.encodeBase64 vectors req.format ∧
      List.Forall₂ (fun text v => ((req.modelName app, req.kind, text), v) ∈ s.computed)
        req.texts vectors
  /-- A request that ends in an error has inserted nothing. -/
  failed : ∀ t req e, s.phase t = .responded req (.error e) → t ∉ s.inserters
  /-- Nothing but an insert of a request and an eviction changes the cache. -/
  changes : ∀ a s', (machine Tid ext app).step s a = some s' →
    s'.cache = s.cache ∧ s'.inserters = s.inserters ∨
      (∃ key, a = .evict key) ∧ s'.inserters = s.inserters ∨
      ∃ t, a = .advance t ∧ s'.inserters = s.inserters ++ [t]
  /-- The expectations of the splice hold. -/
  total : ∀ t msg, s.phase t = .panicked msg → msg = notLoaded

theorem length_buildData (encodeBase64 : V → String) (vectors : List V)
    (format : EncodingFormat) : (buildData encodeBase64 vectors format).length = vectors.length :=
  List.length_mapIdx

/-- **The embedding cache is transparent.** For every history of requests, every pattern of
evictions, every order of the keys of the misses, and with the cache enabled or disabled: a
response with status 200 has the vectors that inference gives for the inputs, each computed for the
model, the input type and the text of its position, and a request that fails has not changed the
cache. -/
theorem cacheTransparent_of_reachable (hash : Function.Injective ext.hashText)
    (hplain : ∀ p ∈ app.models, PlainName p.1) (f : String → String → V)
    (hs : (machine Tid ext app).Reachable (Deterministic app f) s) :
    CacheTransparent ext app f s := by
  have h := inv_of_reachable hash hplain hs
  have hresponded {t : Tid} {req : EmbedRequest} {r : EmbedResponse V}
      (hp : s.phase t = .responded req (.ok r)) : ∃ vectors,
        r.data = buildData ext.encodeBase64 vectors req.format ∧
          List.Forall₂ (Computed app s.computed req) req.texts vectors := by
    have hok := h.phase t
    rw [hp] at hok
    obtain ⟨vectors, totalTokens, heq, hall⟩ := hok
    exact ⟨vectors, congrArg EmbedResponse.data (Response.ok.inj heq), hall⟩
  refine ⟨fun t req r hp => ?_, fun t req r hp => hresponded hp, fun t req e hp ht => ?_,
    fun a s' hstep => ?_, fun t msg hp => ?_⟩
  · obtain ⟨vectors, hdata, hall⟩ := hresponded hp
    have hvectors : req.texts.map (f (req.modelName app)) = vectors :=
      List.forall₂_eq_eq_eq ▸ List.forall₂_map_left_iff.mpr
        (hall.imp fun text v hv => (computed_eq hs _ hv).symm)
    rw [hdata, ← hvectors, length_buildData, List.length_map]
    exact ⟨rfl, rfl⟩
  · have hinserting := h.inserters t ht
    rw [hp] at hinserting
    exact hinserting
  · cases trans_of_step hstep with
    | insert | unknownKey => exact .inr (.inr ⟨_, rfl, rfl⟩)
    | evict key => exact .inr (.inl ⟨⟨key, rfl⟩, rfl⟩)
    | _ => exact .inl ⟨rfl, rfl⟩
  · have hok := h.phase t
    rwa [hp] at hok

/-- One model with a batcher, and a cache of eight entries. -/
def smallApp : AppState := ⟨[("e5", ⟨true, true⟩)], "e5", 32, false, 8⟩

/-- Texts stand for their hashes and vectors for their encodings. -/
def plainExternals : Externals String String := ⟨id, id⟩

/-- A request with a duplicate, a query request for one of its texts, a document request that hits
the cache, and a request that fails. -/
theorem cacheTransparent_duplicates :
    ∃ s, (machine ℕ plainExternals smallApp).Reachable (Deterministic smallApp (· ++ ·)) s ∧
      s.phase 0 = .responded ⟨.batch ["a", "b", "a"], none, none, none⟩ (okResponse plainExternals
        smallApp ⟨.batch ["a", "b", "a"], none, none, none⟩ ["e5a", "e5b", "e5a"] 3) ∧
      s.phase 2 = .responded ⟨.single "a", none, none, none⟩ (okResponse plainExternals smallApp
        ⟨.single "a", none, none, none⟩ ["e5a"] 0) ∧
      s.inserters = [0, 0, 1] ∧ CacheTransparent plainExternals smallApp (· ++ ·) s := by
  obtain ⟨s, hs, h0, h2, hi⟩ :
      ∃ s ∈ (machine ℕ plainExternals smallApp).runUnder (Deterministic smallApp (· ++ ·))
        ⟨.new 8, false, fun _ => .idle, [], []⟩
        [.begin 0 ⟨.batch ["a", "b", "a"], none, none, none⟩, .advance 0, .advance 0, .advance 0,
          .startInference 0 ["b", "a"], .backend 0 (.batcher 3 (.ok ["e5b", "e5a"])),
          .advance 0, .advance 0, .advance 0,
          .begin 1 ⟨.single "a", none, none, some .query⟩, .advance 1, .startInference 1 ["a"],
          .backend 1 (.batcher 2 (.ok ["e5a"])), .advance 1, .advance 1,
          .begin 2 ⟨.single "a", none, none, none⟩, .advance 2, .advance 2,
          .begin 3 ⟨.single "c", none, none, none⟩, .advance 3, .startInference 3 ["c"],
          .backend 3 (.batcher 2 (.error (.queueFull "e5")))],
        s.phase 0 = .responded ⟨.batch ["a", "b", "a"], none, none, none⟩ (okResponse
            plainExternals smallApp ⟨.batch ["a", "b", "a"], none, none, none⟩
            ["e5a", "e5b", "e5a"] 3) ∧
          s.phase 2 = .responded ⟨.single "a", none, none, none⟩ (okResponse plainExternals
            smallApp ⟨.single "a", none, none, none⟩ ["e5a"] 0) ∧ s.inserters = [0, 0, 1] := by
    decide +kernel
  have hreach : (machine ℕ plainExternals smallApp).Reachable
      (Deterministic smallApp (· ++ ·)) s := .of_runUnder rfl hs
  exact ⟨s, hreach, h0, h2, hi,
    cacheTransparent_of_reachable Function.injective_id (by decide) (· ++ ·) hreach⟩

end OxEmbed.Embeddings

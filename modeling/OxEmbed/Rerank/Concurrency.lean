import OxEmbed.Library.Counting
import OxEmbed.Rerank.Handler

/-!
# The cap on concurrent rerank requests

A permit of `rerank_semaphore` is taken before anything else and goes back when the handler ends:
with a response, because the client went away, or in a panic. So the permits that are left and the
handlers at work always add up to the cap, and a request is turned away exactly when as many
handlers as the cap allows are at work. The gauge of a model counts the handlers past the checks.
The shutdown flag is tested before the checks, so a handler that has passed the test when the
server shuts down still passes the checks and is counted; no other handler is.

These hold in every run, whatever the tokenizer, the backends and the clients do.

## Main definitions

* `Moves` : what a step of one handler does to the permits and to the gauges.
* `Conserved` : the permits and the gauges add up.
* `State.committed` : the handlers past the shutdown gate.
* `Capped` : what the cap, the gauges and the shutdown do.

## Main results

* `moves_of_step` : every step moves one handler, or none.
* `balance_of_reachable` : the permits and the gauges add up in every reachable state.
* `capped_of_reachable` : the cap is kept and nothing else than the cap turns a request away.
-/

namespace OxEmbed.Rerank

open Set

variable {D F Tid : Type}

/-! ### What a step moves -/

/-- The handlers at work. -/
def State.holders (s : State D F Tid) : Set Tid := {t | (s.phase t).Holds}

/-- The handlers that the gauge of a model counts. -/
def State.working (s : State D F Tid) (model : String) : Set Tid :=
  {t | (s.phase t).model? = some model}

/-- The model for which a handler past the shutdown gate works, or will work after its checks. -/
def Phase.committed? (app : AppState) : Phase F → Option String
  | .checking req => (validate app req).toOption
  | .resolved _ model => some model
  | p => p.model?

/-- The handlers past the shutdown gate, for a model. -/
def State.committed (app : AppState) (s : State D F Tid) (model : String) : Set Tid :=
  {t | (s.phase t).committed? app = some model}

/-- The handler counts in the gauge of the model. -/
def Phase.counts (p : Phase F) (model : String) : Bool := p.model? = some model

section Moves

variable [DecidableEq Tid] {s s' : State D F Tid} {t : Tid} {p : Phase F} {model : String}

/-- The handler of `t` moves to `p`; the permits and the gauges change by what it holds. -/
structure Moves (s s' : State D F Tid) (t : Tid) (p : Phase F) : Prop where
  phase : s'.phase = Function.update s.phase t p
  uncapped : s.permits = none → s'.permits = none
  permits : ∀ n, s.permits = some n →
    ∃ n', s'.permits = some n' ∧ n' + p.Holds.toNat = n + (s.phase t).Holds.toNat
  gauge : ∀ model, s'.inFlight model + ((s.phase t).counts model).toNat =
    s.inFlight model + (p.counts model).toNat

theorem Moves.setPhase (hholds : p.Holds = (s.phase t).Holds)
    (hmodel : p.model? = (s.phase t).model?) : Moves s (s.setPhase t p) t p where
  phase := rfl
  uncapped h := h
  permits n hn := ⟨n, hn, by rw [hholds]⟩
  gauge model := by rw [Phase.counts, Phase.counts, hmodel]; rfl

/-- A handler that ends before it is counted. -/
theorem Moves.release (hbefore : (s.phase t).Holds = true) (hmodel : (s.phase t).model? = none)
    (hp : p.Holds = false) (hend : p.model? = none) : Moves s (s.release t p) t p where
  phase := rfl
  uncapped h := by simp [State.release, State.setPhase, h]
  permits n hn := ⟨n + 1, by simp [State.release, State.setPhase, hn], by simp [hbefore, hp]⟩
  gauge model := by simp [Phase.counts, hmodel, hend, State.release, State.setPhase]

theorem Moves.enter (hbefore : (s.phase t).Holds = true) (hnone : (s.phase t).model? = none)
    (hp : p.model? = some model) (hholds : p.Holds = true) :
    Moves s (s.enter t model p) t p where
  phase := rfl
  uncapped h := h
  permits n hn := ⟨n, hn, by rw [hbefore, hholds]⟩
  gauge model' := by
    by_cases h : model' = model
    · subst h
      simp [Phase.counts, hnone, hp, State.enter, State.setPhase]
    · simp [Phase.counts, hnone, hp, State.enter, State.setPhase, h, Ne.symm h]

theorem Moves.finish (hbefore : (s.phase t).model? = some model)
    (hholds : (s.phase t).Holds = true) (hp : p.Holds = false) (hend : p.model? = none) :
    Moves s (s.finish t model p) t p where
  phase := rfl
  uncapped h := by simp [State.finish, State.release, State.setPhase, h]
  permits n hn :=
    ⟨n + 1, by simp [State.finish, State.release, State.setPhase, hn], by simp [hholds, hp]⟩
  gauge model' := by
    by_cases h : model' = model
    · subst h
      simp [Phase.counts, hbefore, hend, State.finish, State.release, State.setPhase]
    · simp [Phase.counts, hbefore, hend, State.finish, State.release, State.setPhase, h, Ne.symm h]

theorem holds_of_model? (h : p.model? = some model) : p.Holds = true := by
  cases p <;> first | rfl | cases h

end Moves

section Steps

variable [Field F] [LinearOrder F] [DecidableEq D] [DecidableEq Tid] {ext : Externals D F}
  {app : AppState} {s s' : State D F Tid} {a : Action D F Tid}

omit [DecidableEq D] [DecidableEq Tid] in
theorem conclude_ended (exp : F → F) (req : RerankRequest) (model : String) (nanos : ℕ)
    (scores : List F) : (conclude exp req model nanos scores).Holds = false ∧
      (conclude exp req model nanos scores).model? = none := by
  rw [conclude]
  split <;> exact ⟨rfl, rfl⟩

/-- **Every step moves one handler, or none.** -/
theorem moves_of_step (h : step ext app s a = some s') :
    (s'.phase = s.phase ∧ s'.permits = s.permits ∧ s'.inFlight = s.inFlight) ∨
      ∃ t p, Moves s s' t p := by
  cases trans_of_step h with
  | evict | shutdown => exact .inl ⟨rfl, rfl, rfl⟩
  | @uncapped t req hp hn =>
    refine .inr ⟨t, .admitted req, rfl, id, fun n h => (nomatch hn.symm.trans h), fun model => ?_⟩
    rw [hp]
    rfl
  | @refuse t req hp hn =>
    exact .inr ⟨t, _, .setPhase (by rw [hp]; rfl) (by rw [hp]; rfl)⟩
  | @acquire t req n hp hn =>
    refine .inr ⟨t, .admitted req, rfl, fun h => (nomatch hn.symm.trans h), fun m hm => ?_,
      fun model => ?_⟩
    · obtain rfl := Option.some.inj (hn.symm.trans hm)
      exact ⟨n, rfl, by rw [hp]; rfl⟩
    · rw [hp]
      rfl
  | turnAway hp | reject hp | noEntry hp | notLoaded hp =>
    exact .inr ⟨_, _, .release (by rw [hp]; rfl) (by rw [hp]; rfl) rfl rfl⟩
  | pass hp | resolve hp => exact .inr ⟨_, _, .setPhase (by rw [hp]; rfl) (by rw [hp]; rfl)⟩
  | dispatch hp | probe hp =>
    exact .inr ⟨_, _, .enter (by rw [hp]; rfl) (by rw [hp]; rfl) rfl rfl⟩
  | lookup hp | allHits hp | tokenize hp | keep hp | leaveOpen hp | spliced hp | tokenized hp =>
    exact .inr ⟨_, _, .setPhase (by rw [hp]; rfl) (by rw [hp]; rfl)⟩
  | @insert t _ _ _ _ _ _ _ _ _ _ hp =>
    refine .inr ⟨t, _, rfl, id, fun n hn => ⟨n, hn, by rw [hp]; rfl⟩, fun model => ?_⟩
    rw [hp]
    rfl
  | openHit hp | missOutside hp | insertOutside hp | openSlot hp | workerFailed hp
  | tokenizeFailed hp | inferFailed hp =>
    exact .inr ⟨_, _, .finish (by rw [hp]; rfl) (by rw [hp]; rfl) rfl rfl⟩
  | @workerScored t nanos o req model scores hp =>
    obtain ⟨hholds, hmodel⟩ := conclude_ended ext.exp req model nanos scores
    exact .inr ⟨_, _, .finish (by rw [hp]; rfl) (by rw [hp]; rfl) hholds hmodel⟩
  | @scored t nanos i req model entry tokenIds scores hp =>
    obtain ⟨hholds, hmodel⟩ := conclude_ended ext.exp req model nanos scores
    exact .inr ⟨_, _, .finish (by rw [hp]; rfl) (by rw [hp]; rfl) hholds hmodel⟩
  | abandon hp hm => exact .inr ⟨_, _, .finish hm (holds_of_model? hm) rfl rfl⟩

/-! ### The permits and the gauges add up -/

/-- The permits and the gauges add up. -/
structure Conserved (app : AppState) (s : State D F Tid) : Prop where
  uncapped : app.rerankSemaphore = none → s.permits = none
  permits : ∀ cap, app.rerankSemaphore = some cap →
    ∃ n k : ℕ, s.permits = some n ∧ s.holders.encard = k ∧ k + n = cap
  gauge : ∀ model, ∃ k : ℕ, s.inFlight model = k ∧ (s.working model).encard = k

omit [Field F] [LinearOrder F] [DecidableEq D] in
theorem Moves.oneChange_holders {t : Tid} {p : Phase F} (h : Moves s s' t p) :
    OneChange s.holders s'.holders t (s.phase t).Holds p.Holds where
  before := Iff.rfl
  after := by rw [State.holders, mem_ofPred_eq, h.phase, Function.update_self]
  others u hu := by
    rw [State.holders, State.holders, mem_ofPred_eq, mem_ofPred_eq, h.phase,
      Function.update_of_ne hu]

omit [Field F] [LinearOrder F] [DecidableEq D] in
theorem Moves.oneChange_working {t : Tid} {p : Phase F} (h : Moves s s' t p) (model : String) :
    OneChange (s.working model) (s'.working model) t ((s.phase t).counts model)
      (p.counts model) where
  before := by rw [State.working, mem_ofPred_eq, Phase.counts, decide_eq_true_eq]
  after := by
    rw [State.working, mem_ofPred_eq, h.phase, Function.update_self, Phase.counts,
      decide_eq_true_eq]
  others u hu := by
    rw [State.working, State.working, mem_ofPred_eq, mem_ofPred_eq, h.phase,
      Function.update_of_ne hu]

omit [Field F] [LinearOrder F] [DecidableEq D] in
/-- **Step lemma.** A step of one handler keeps the sums. -/
theorem Conserved.moves (hs : Conserved app s) {t : Tid} {p : Phase F} (h : Moves s s' t p) :
    Conserved app s' where
  uncapped hnone := h.uncapped (hs.uncapped hnone)
  permits cap hcap := by
    obtain ⟨n, k, hn, hk, hsum⟩ := hs.permits cap hcap
    obtain ⟨n', hn', hmove⟩ := h.permits n hn
    have hle := h.oneChange_holders.toNat_le hk
    refine ⟨n', k + p.Holds.toNat - (s.phase t).Holds.toNat, hn', ?_, by omega⟩
    exact h.oneChange_holders.encard hk fun _ => by omega
  gauge model := by
    obtain ⟨k, hgauge, hk⟩ := hs.gauge model
    have hmove := h.gauge model
    have hle := (h.oneChange_working model).toNat_le hk
    refine ⟨k + (p.counts model).toNat - ((s.phase t).counts model).toNat, by omega, ?_⟩
    exact (h.oneChange_working model).encard hk fun _ => by omega

variable {C : State D F Tid → Action D F Tid → Prop}

/-- **The permits and the gauges add up in every reachable state.** -/
theorem balance_of_reachable (hs : (machine Tid ext app).Reachable C s) : Conserved app s := by
  refine hs.invariant ?_ fun s a s' h _ hstep => ?_
  · rintro _ rfl
    refine ⟨id, fun cap hcap => ⟨cap, 0, hcap, ?_, Nat.zero_add cap⟩, fun model => ⟨0, rfl, ?_⟩⟩
    · rw [Nat.cast_zero, encard_eq_zero]
      exact eq_empty_iff_forall_notMem.2 fun t ht => nomatch ht
    · rw [Nat.cast_zero, encard_eq_zero]
      exact eq_empty_iff_forall_notMem.2 fun t ht => nomatch ht
  · rcases moves_of_step hstep with ⟨hphase, hpermits, hgauge⟩ | ⟨t, p, hmoves⟩
    · refine ⟨fun hnone => hpermits ▸ h.uncapped hnone, fun cap hcap => ?_, fun model => ?_⟩
      · rw [hpermits, State.holders, hphase]
        exact h.permits cap hcap
      · rw [hgauge, State.working, hphase]
        exact h.gauge model
    · exact h.moves hmoves

/-! ### The shutdown -/

omit [Field F] [LinearOrder F] [DecidableEq D] [DecidableEq Tid] in
theorem committed?_of_model? {p : Phase F} {model : String} (h : p.model? = some model) :
    p.committed? app = some model := by
  cases p <;> first | exact h | cases h

omit [Field F] [LinearOrder F] [DecidableEq D] [DecidableEq Tid] in
/-- The handlers that a gauge counts are past the shutdown gate. -/
theorem working_subset_committed (model : String) : s.working model ⊆ s.committed app model :=
  fun _ ht => committed?_of_model? ht

omit [Field F] [LinearOrder F] [DecidableEq D] in
theorem committed_update {t : Tid} {p : Phase F} (hphase : s'.phase = Function.update s.phase t p)
    (hp : ∀ model, p.committed? app = some model → (s.phase t).committed? app = some model)
    (model : String) : s'.committed app model ⊆ s.committed app model := by
  intro u hu
  rw [State.committed, mem_ofPred_eq, hphase] at hu
  by_cases ht : u = t
  · subst ht
    rw [Function.update_self] at hu
    exact hp model hu
  · rwa [Function.update_of_ne ht] at hu

/-- Once the server shuts down no request passes the shutdown gate. -/
theorem committed_of_shutdown (hdown : s.shutdown = true) (h : step ext app s a = some s') :
    s'.shutdown = true ∧ ∀ model, s'.committed app model ⊆ s.committed app model := by
  have hend {p : Phase F} (hp : p.committed? app = none) {q : Phase F} :
      ∀ model, p.committed? app = some model → q.committed? app = some model :=
    fun model hmodel => absurd (hp.symm.trans hmodel) (by simp)
  have hconclude (req : RerankRequest) (model : String) (nanos : ℕ) (scores : List F) :
      (conclude ext.exp req model nanos scores).committed? app = none := by
    rw [conclude]
    split <;> rfl
  cases trans_of_step h with
  | evict => exact ⟨hdown, fun _ => Subset.rfl⟩
  | shutdown => exact ⟨rfl, fun _ => Subset.rfl⟩
  | pass _ hup => cases hdown.symm.trans hup
  | uncapped | refuse | acquire | turnAway | reject | noEntry | notLoaded | openHit | missOutside
  | insertOutside | openSlot | workerFailed | tokenizeFailed | inferFailed | abandon =>
    exact ⟨hdown, committed_update rfl (hend rfl)⟩
  | resolve hp hv =>
    refine ⟨hdown, committed_update rfl fun model hmodel => ?_⟩
    rw [hp, Phase.committed?, hv]
    exact hmodel
  | dispatch hp | probe hp | lookup hp | allHits hp | tokenize hp | keep hp | leaveOpen hp
  | spliced hp | tokenized hp | insert hp =>
    exact ⟨hdown, committed_update rfl fun model hmodel => by rw [hp]; exact hmodel⟩
  | @workerScored t nanos o req model scores hp =>
    exact ⟨hdown, committed_update rfl (hend (hconclude req model nanos scores))⟩
  | @scored t nanos i req model entry tokenIds scores hp =>
    exact ⟨hdown, committed_update rfl (hend (hconclude req model nanos scores))⟩

/-- What is past the shutdown gate after the shutdown was past it when it began. -/
theorem committed_of_path {as : List (Action D F Tid)} (hdown : s.shutdown = true)
    (hp : (machine Tid ext app).Path C s as s') :
    s'.shutdown = true ∧ ∀ model, s'.committed app model ⊆ s.committed app model := by
  induction hp with
  | nil => exact ⟨hdown, fun _ => Subset.rfl⟩
  | snoc _ _ hstep ih =>
    obtain ⟨hdown', hsub⟩ := committed_of_shutdown ih.1 hstep
    exact ⟨hdown', fun model => (hsub model).trans (ih.2 model)⟩

/-- A handler that tests the flag after the shutdown answers 503. -/
theorem turnedAway_of_shutdown {t : Tid} {req : RerankRequest} (hdown : s.shutdown = true)
    (hp : s.phase t = .admitted req) (h : step ext app s (.advance t) = some s') :
    s'.phase t = .responded req (.error shuttingDown) := by
  have heq : s.release t (.responded req (.error shuttingDown)) = s' := by
    simpa [step, advance, hp, hdown] using h
  rw [← heq, State.release, State.setPhase_phase]

/-! ### What the cap does -/

/-- What the cap, the gauges and the shutdown do. -/
structure Capped (ext : Externals D F) (app : AppState) (s : State D F Tid) : Prop where
  /-- The permits left and the handlers at work add up to the cap. -/
  permits : ∀ cap : ℕ, app.rerankSemaphore = some cap →
    ∃ n : ℕ, s.permits = some n ∧ s.holders.encard + n = cap
  /-- A request is turned away by the cap exactly when as many handlers are at work as it
  allows. -/
  refused : ∀ t req s', (machine Tid ext app).step s (.begin t req) = some s' →
    (s'.phase t = .responded req (.error capReached) ↔
      ∃ cap : ℕ, app.rerankSemaphore = some cap ∧ s.holders.encard = cap)
  /-- The gauge of a model counts its handlers past the checks. -/
  gauge : ∀ model, ∃ k : ℕ, s.inFlight model = k ∧ (s.working model).encard = k
  /-- A handler that tests the flag after the shutdown answers 503. -/
  turnedAway : s.shutdown = true → ∀ t req s', s.phase t = .admitted req →
    (machine Tid ext app).step s (.advance t) = some s' →
      s'.phase t = .responded req (.error shuttingDown)
  /-- After the shutdown the gauges count handlers past the shutdown gate, and these are among
  those that had passed it. -/
  stopped : s.shutdown = true → ∀ as s', (machine Tid ext app).Path (fun _ _ => True) s as s' →
    ∀ model, s'.working model ⊆ s'.committed app model ∧
      s'.committed app model ⊆ s.committed app model

/-- **The cap on concurrent requests is kept, and nothing else turns a request away with its
error.** -/
theorem capped_of_reachable (ext : Externals D F) (app : AppState) (s : State D F Tid)
    (hs : (machine Tid ext app).Reachable (fun _ _ => True) s) : Capped ext app s := by
  have h := balance_of_reachable hs
  refine ⟨fun cap hcap => ?_, fun t req s' hstep => ?_, h.gauge,
    fun hdown t req s' => turnedAway_of_shutdown hdown, fun hdown as s' hp model =>
      ⟨working_subset_committed model, (committed_of_path hdown hp).2 model⟩⟩
  · obtain ⟨n, k, hn, hk, hsum⟩ := h.permits cap hcap
    exact ⟨n, hn, by rw [hk, ← hsum, Nat.cast_add]⟩
  · have hcount (n : ℕ) (hn : s.permits = some n) :
        n = 0 ↔ ∃ cap : ℕ, app.rerankSemaphore = some cap ∧ s.holders.encard = cap := by
      cases hcap : app.rerankSemaphore with
      | none => exact absurd ((h.uncapped hcap).symm.trans hn) (by simp)
      | some cap =>
        obtain ⟨n', k, hn', hk, hsum⟩ := h.permits cap hcap
        obtain rfl := Option.some.inj (hn.symm.trans hn')
        rw [hk]
        constructor
        · rintro rfl
          exact ⟨cap, rfl, by rw [← hsum, Nat.add_zero]⟩
        · rintro ⟨_, heq, hcard⟩
          obtain rfl := Option.some.inj heq
          have hkc : k = cap := by exact_mod_cast hcard
          omega
    have hmove : step ext app s (.begin t req) = some s' := hstep
    cases trans_of_step hmove with
    | @uncapped _ _ hp hn =>
      rw [State.setPhase_phase]
      refine ⟨fun h => (nomatch h), fun ⟨cap, hcap, _⟩ => ?_⟩
      obtain ⟨n, k, hn', -⟩ := h.permits cap hcap
      cases hn.symm.trans hn'
    | refuse hp hn =>
      rw [State.setPhase_phase]
      exact ⟨fun _ => (hcount 0 hn).1 rfl, fun _ => rfl⟩
    | @acquire _ _ n hp hn =>
      rw [State.setPhase_phase]
      refine ⟨fun h => (nomatch h), fun hfull => ?_⟩
      exact absurd ((hcount (n + 1) hn).2 hfull) (Nat.succ_ne_zero n)

end Steps

def oneDocument : RerankRequest := ⟨none, "q", [.text "a"], none, false, none⟩

/-- A request is turned away while another one waits for the tokenizer; the client of that one goes
away. The server shuts down when a third request has passed the shutdown gate, and it is counted
after the shutdown. -/
theorem capped_abandoned :
    ∃ s, (machine ℕ ⟨ByteArray.data, fun x : ℚ => x⟩ onePermit).Reachable (fun _ _ => True) s ∧
      s.phase 1 = .responded oneDocument (.error capReached) ∧ s.phase 0 = .abandoned ∧
      s.permits = some 0 ∧ s.inFlight "m" = 1 ∧ s.shutdown = true ∧
      Capped ⟨ByteArray.data, fun x : ℚ => x⟩ onePermit s := by
  obtain ⟨s, hs, h₁, h₀, hpermits, hgauge, hdown⟩ :
      ∃ s ∈ (machine ℕ ⟨ByteArray.data, fun x : ℚ => x⟩ onePermit).runUnder (fun _ _ => True)
          (start onePermit)
          [.begin 0 oneDocument, .advance 0, .advance 0, .advance 0, .advance 0, .advance 0,
            .begin 1 oneDocument, .abandon 0, .begin 2 oneDocument, .advance 2, .shutdown,
            .advance 2, .advance 2],
        s.phase 1 = .responded oneDocument (.error capReached) ∧ s.phase 0 = .abandoned ∧
          s.permits = some 0 ∧ s.inFlight "m" = 1 ∧ s.shutdown = true := by
    decide +kernel
  exact ⟨s, .of_runUnder rfl hs, h₁, h₀, hpermits, hgauge, hdown,
    capped_of_reachable _ _ _ (.of_runUnder rfl hs)⟩

end OxEmbed.Rerank

import OxEmbed.Ipc.Traffic

/-!
# The overflow of a worker's queue

A task compares the value that `WAITERS` had before its own increment with the limit. The counter is
meant for the tasks that wait for a permit. It also holds a task that is being rejected until it
decrements the counter, and a task that has its permit until it does the same: both are *passing*.
So a request may be rejected although fewer requests wait than the limit allows.

## Main definitions

* `Task.isPassing` : the program points of the tasks that are counted and do not wait.
* `QueueFull` : as many other requests wait as the limit allows.
* `NeverSpurious` : in a run, a request is rejected only when the queue is full.
* `Settled` : no task is passing when a task finds the counter at the limit or above.

## Main results

* `queueFull_iff` : how many tasks may be passing when the queue is full.
* `exists_increment_of_rejects` : where the rejection of a request was decided.
* `neverSpurious_of_settled` : a run with settled steps rejects no request without need.
-/

namespace OxEmbed.Ipc

variable {F : Type} {P : Postcard F} {s s' s₁ : State F} {a : Action F} {as : List (Action F)}
  {C : State F → Action F → Prop} {c w poolSize : ℕ} {k : Conn F} {wk : Worker}

/-! ### Passing tasks -/

/-- The task is counted and does not wait: it is being rejected, or has its permit. -/
def Task.isPassing : Task F → Bool
  | .rejecting _ _ | .granted _ => true
  | _ => false

/-- The request of the connection is rejected because the queue is full. -/
def Rejects (s : State F) (c : ℕ) : Prop :=
  ∃ k req, s.conns c = some k ∧ k.task = .rejecting req "worker queue overflow"

/-- As many other requests are admitted and wait for a permit as the limit allows. -/
def QueueFull (s : State F) (c : ℕ) : Prop :=
  ∃ k wk, s.conns c = some k ∧ s.workers k.worker = some wk ∧
    (wk.maxWaiters : ℕ∞) ≤ (tasksAt s k.worker Task.isWaiting \ {c}).encard

/-- The run rejects a request only when the queue is full at the increment of its task. -/
def NeverSpurious (P : Postcard F) (as : List (Action F)) : Prop :=
  ∀ pre c s₁ s₂, pre ++ [.server c .fetchAdd] <+: as →
    (machine P).Path (fun _ _ => True) .start pre s₁ →
    (machine P).step s₁ (.server c .fetchAdd) = some s₂ → Rejects s₂ c → QueueFull s₁ c

/-- When a task increments `WAITERS` and finds the counter at the limit or above, no task of the
worker is passing: each has decremented the counter since it was rejected or got its permit. -/
def Settled (s : State F) : Action F → Prop
  | .server c .fetchAdd => ∀ k wk, s.conns c = some k → s.workers k.worker = some wk →
    wk.maxWaiters ≤ wk.waiters → tasksAt s k.worker Task.isPassing = ∅
  | _ => True

/-- The counter of the worker of the connection is at the limit. -/
def AtLimit (s : State F) (c : ℕ) : Prop :=
  ∃ k wk, s.conns c = some k ∧ s.workers k.worker = some wk ∧ wk.waiters = wk.maxWaiters

theorem Task.counted_eq (t : Task F) : t.counted = (t.isWaiting || t.isPassing) := by
  cases t <;> rfl

theorem Task.isPassing_of_isWaiting {t : Task F} (h : t.isWaiting = true) :
    t.isPassing = false := by
  cases t <;> first | rfl | cases h

/-- A counted task waits or is passing. -/
theorem encard_waiting_add_passing (s : State F) (w : ℕ) :
    (tasksAt s w Task.isWaiting).encard + (tasksAt s w Task.isPassing).encard =
      (tasksAt s w Task.counted).encard := by
  have hdisjoint : Disjoint (tasksAt s w Task.isWaiting) (tasksAt s w Task.isPassing) := by
    rw [Set.disjoint_left]
    rintro c ⟨k, hc, hk, hwaiting⟩ ⟨k', hc', -, hpassing⟩
    obtain rfl := Option.some.inj (hc.symm.trans hc')
    rw [Task.isPassing_of_isWaiting hwaiting] at hpassing
    cases hpassing
  have hunion : tasksAt s w Task.counted =
      tasksAt s w Task.isWaiting ∪ tasksAt s w Task.isPassing := by
    ext c
    constructor
    · rintro ⟨k, hc, hk, hcounted⟩
      rw [Task.counted_eq, Bool.or_eq_true] at hcounted
      exact hcounted.imp (fun h => ⟨k, hc, hk, h⟩) fun h => ⟨k, hc, hk, h⟩
    · rintro (⟨k, hc, hk, h⟩ | ⟨k, hc, hk, h⟩)
      · exact ⟨k, hc, hk, by rw [Task.counted_eq, h, Bool.true_or]⟩
      · exact ⟨k, hc, hk, by rw [Task.counted_eq, h, Bool.or_true]⟩
  rw [hunion, Set.encard_union_eq hdisjoint]

/-! ### One increment -/

/-- **When the queue is full** for a task that is about to increment the counter: no more tasks are
passing than the counter is above the limit. -/
theorem queueFull_iff {req : WorkerRequest F} (hcounts : Counts s k.worker poolSize wk)
    (hc : s.conns c = some k) (hw : s.workers k.worker = some wk)
    (htask : k.task = .admitting req) :
    QueueFull s c ↔ (tasksAt s k.worker Task.isPassing).encard + wk.maxWaiters ≤ wk.waiters := by
  have hsum := encard_waiting_add_passing s k.worker
  rw [hcounts.waiters] at hsum
  -- the task itself does not wait
  have hself : tasksAt s k.worker Task.isWaiting \ {c} = tasksAt s k.worker Task.isWaiting := by
    refine Set.sdiff_singleton_eq_self ?_
    rw [mem_tasksAt hc rfl, htask]
    exact nofun
  have hqueue : QueueFull s c ↔
      (wk.maxWaiters : ℕ∞) ≤ (tasksAt s k.worker Task.isWaiting).encard := by
    constructor
    · rintro ⟨k', wk', hc', hw', hle⟩
      obtain rfl := Option.some.inj (hc.symm.trans hc')
      obtain rfl := Option.some.inj (hw.symm.trans hw')
      rwa [hself] at hle
    · intro hle
      exact ⟨k, wk, hc, hw, by rwa [hself]⟩
  have hfinite (p : Task F → Bool) (hle : (tasksAt s k.worker p).encard ≤ wk.waiters) :
      ∃ n : ℕ, (tasksAt s k.worker p).encard = n := by
    obtain ⟨n, hn⟩ := ENat.ne_top_iff_exists.mp
      (ne_top_of_le_ne_top (ENat.natCast_ne_top wk.waiters) hle)
    exact ⟨n, hn.symm⟩
  obtain ⟨waiting, hwaiting⟩ := hfinite Task.isWaiting (hsum ▸ le_self_add)
  obtain ⟨passing, hpassing⟩ := hfinite Task.isPassing (hsum ▸ le_add_self)
  rw [hqueue, hwaiting, hpassing]
  rw [hwaiting, hpassing] at hsum
  norm_cast at hsum ⊢
  omega

theorem exists_spawn (hp : (machine P).Path C .start as s) (hw : s.workers w = some wk) :
    ∃ kind maxWaiters poolSize, .spawn w kind maxWaiters poolSize ∈ as := by
  induction hp generalizing wk with
  | nil => cases hw
  | @snoc s s' a as hp _ h ih =>
    have hearlier {wk : Worker} (hw : s.workers w = some wk) :
        ∃ kind maxWaiters poolSize, .spawn w kind maxWaiters poolSize ∈ as ++ [a] := by
      obtain ⟨kind, maxWaiters, poolSize, hmem⟩ := ih hw
      exact ⟨kind, maxWaiters, poolSize, List.mem_append_left _ hmem⟩
    cases workerStep_of_trans (trans_of_step h) w with
    | spawned ha => exact ⟨_, _, _, List.mem_append_right _ (List.mem_singleton.mpr ha.symm)⟩
    | killed _ hw₀ => exact hearlier hw₀
    | kept _ _ hsame => exact hearlier (hsame ▸ hw)
    | served _ _ _ hw₀ => exact hearlier hw₀

/-- **The step of a task that increments the counter**: the request is rejected when the counter is
at the limit or above, and the queue is full when not too many tasks are passing. -/
theorem exists_increment (hP : P.Lawful) (hp : (machine P).Path C .start as s)
    (h : (machine P).step s (.server c .fetchAdd) = some s') :
    ∃ k wk, s.conns c = some k ∧ s.workers k.worker = some wk ∧
      (Rejects s' c ↔ wk.maxWaiters ≤ wk.waiters) ∧
      (QueueFull s c ↔
        (tasksAt s k.worker Task.isPassing).encard + wk.maxWaiters ≤ wk.waiters) := by
  have htrans : Trans P s (.server c .fetchAdd) s' := trans_of_step h
  cases htrans with
  | @server _ k k' wk wk' _ hc hw halive hserve =>
    obtain ⟨kind, maxWaiters, poolSize, hspawn⟩ := exists_spawn hp hw
    obtain ⟨wk₀, hw₀, -, hcounts⟩ := accounted_of_path hP hp hspawn
    obtain rfl := Option.some.inj (hw.symm.trans hw₀)
    refine ⟨k, wk, hc, hw, ?_⟩
    cases serves_of_serve hserve with
    | @overflow req htask hfull =>
      refine ⟨iff_of_true ⟨{ k with task := .rejecting req "worker queue overflow" }, req,
        ?_, rfl⟩ hfull, queueFull_iff (hcounts halive) hc hw htask⟩
      rw [State.setConn_conns, Function.update_self]
    | @enqueue req htask hroom =>
      refine ⟨iff_of_false ?_ (Nat.not_le.mpr hroom), queueFull_iff (hcounts halive) hc hw htask⟩
      rintro ⟨k₀, req', hc₀, hrejecting⟩
      rw [State.setConn_conns, Function.update_self] at hc₀
      obtain rfl := Option.some.inj hc₀
      cases hrejecting

/-- A settled increment that rejects the request finds the queue full. -/
theorem queueFull_of_settled (hP : P.Lawful) (hp : (machine P).Path C .start as s)
    (h : (machine P).step s (.server c .fetchAdd) = some s') (hrejects : Rejects s' c)
    (hsettled : Settled s (.server c .fetchAdd)) : QueueFull s c := by
  obtain ⟨k, wk, hc, hw, hlimit, hqueue⟩ := exists_increment hP hp h
  have hle := hlimit.mp hrejects
  rw [hqueue, hsettled k wk hc hw hle, Set.encard_empty, zero_add]
  exact_mod_cast hle

/-- **At the limit a single passing task is enough** for a rejection without need. -/
theorem queueFull_iff_settled (hP : P.Lawful) (hp : (machine P).Path C .start as s)
    (h : (machine P).step s (.server c .fetchAdd) = some s') (hlimit : AtLimit s c) :
    Rejects s' c ∧ (QueueFull s c ↔ Settled s (.server c .fetchAdd)) := by
  obtain ⟨k, wk, hc, hw, hrejects, hqueue⟩ := exists_increment hP hp h
  obtain ⟨k', wk', hc', hw', heq⟩ := hlimit
  obtain rfl := Option.some.inj (hc.symm.trans hc')
  obtain rfl := Option.some.inj (hw.symm.trans hw')
  refine ⟨hrejects.mpr heq.ge, fun hfull k' wk' hc' hw' _ => ?_, fun hsettled =>
    queueFull_of_settled hP hp h (hrejects.mpr heq.ge) hsettled⟩
  obtain rfl := Option.some.inj (hc.symm.trans hc')
  rw [hqueue, heq] at hfull
  have hzero : (tasksAt s k.worker Task.isPassing).encard ≤ 0 :=
    (ENat.add_le_add_iff_right (ENat.natCast_ne_top _)).mp (hfull.trans (zero_add _).ge)
  exact Set.encard_eq_zero.mp (le_antisymm hzero zero_le)

/-! ### Runs -/

/-- **A request that is rejected was rejected at an increment of its task**, in every run. -/
theorem exists_increment_of_rejects (hp : (machine P).Path C .start as s) (h : Rejects s c) :
    ∃ pre s₁ s₂, pre ++ [.server c .fetchAdd] <+: as ∧ (machine P).Path C .start pre s₁ ∧
      (machine P).step s₁ (.server c .fetchAdd) = some s₂ ∧ Rejects s₂ c := by
  induction hp with
  | nil =>
    obtain ⟨k, req, hc, -⟩ := h
    cases hc
  | @snoc s s' a as hp _ hstep ih =>
    have hearlier (h : Rejects s c) : ∃ pre s₁ s₂, pre ++ [.server c .fetchAdd] <+: as ++ [a] ∧
        (machine P).Path C .start pre s₁ ∧
        (machine P).step s₁ (.server c .fetchAdd) = some s₂ ∧ Rejects s₂ c := by
      obtain ⟨pre, s₁, s₂, hpre, hpath⟩ := ih h
      exact ⟨pre, s₁, s₂, hpre.trans (List.prefix_append as [a]), hpath⟩
    obtain ⟨k', req, hc', htask⟩ := h
    cases connStep_of_trans (trans_of_step hstep) c with
    | absent _ _ hnone =>
      rw [hnone] at hc'
      cases hc'
    | opened _ _ hsome _ hnew =>
      obtain rfl := Option.some.inj (hc'.symm.trans hsome)
      rw [hnew.task] at htask
      cases htask
    | kept _ hc hsome hkeep =>
      obtain rfl := Option.some.inj (hc'.symm.trans hsome)
      exact hearlier ⟨_, req, hc, hkeep.task.symm.trans htask⟩
    | @killed k _ _ hsome =>
      obtain rfl := Option.some.inj (hc'.symm.trans hsome)
      have hclosed := isClosed_kill k
      rw [htask] at hclosed
      cases hclosed
    | @served k _ wk wk' ev ha hc hw halive hserve hsome =>
      obtain rfl := Option.some.inj (hc'.symm.trans hsome)
      have hcounted : k'.task.counted = true := by rw [htask]; rfl
      cases serves_of_serve hserve with
      | overflow hkt hfull =>
        subst ha
        exact ⟨as, s, s', List.prefix_refl _, hp, hstep, _, _, hsome, rfl⟩
      | refused hkt hclosed => exact absurd (Task.rejecting.inj htask).2 (by decide)
      | reject hkt hreply =>
        rw [(written_of_reply hreply).counted] at hcounted
        cases hcounted
      | inferred r hkt hr hreply =>
        rw [(written_of_reply hreply).counted] at hcounted
        cases hcounted
      | @writeFail rest onError hkt => cases onError <;> cases htask
      | _ => cases htask

/-- **A run whose steps are settled rejects no request without need**: for every request that is
rejected, the queue was full when its task incremented the counter. At an increment that finds the
counter at the limit, the rejection has a reason only if the step is settled. -/
theorem neverSpurious_of_settled (hP : P.Lawful)
    (hp : (machine P).Path (fun _ _ => True) .start as s) :
    ((machine P).Path Settled .start as s → NeverSpurious P as ∧ ∀ c, Rejects s c →
      ∃ pre s₁, pre ++ [.server c .fetchAdd] <+: as ∧
        (machine P).Path (fun _ _ => True) .start pre s₁ ∧ QueueFull s₁ c) ∧
    ∀ pre c s₁ s₂, pre ++ [.server c .fetchAdd] <+: as →
      (machine P).Path (fun _ _ => True) .start pre s₁ →
      (machine P).step s₁ (.server c .fetchAdd) = some s₂ → AtLimit s₁ c →
      Rejects s₂ c ∧ (QueueFull s₁ c ↔ Settled s₁ (.server c .fetchAdd)) := by
  refine ⟨fun hsettled => ?_, fun pre c s₁ s₂ _ hpath h hlimit =>
    queueFull_iff_settled hP hpath h hlimit⟩
  have hnever : NeverSpurious P as := fun pre c s₁ s₂ hpre hpath h hrejects =>
    queueFull_of_settled hP hpath h hrejects (hp.guard_iff.mp hsettled pre _ s₁ s₂ hpre hpath h)
  refine ⟨hnever, fun c hrejects => ?_⟩
  obtain ⟨pre, s₁, s₂, hpre, hpath, h, hrejects'⟩ := exists_increment_of_rejects hp hrejects
  exact ⟨pre, s₁, hpre, hpath, hnever pre c s₁ s₂ hpre hpath h hrejects'⟩

/-! ### Three requests -/

/-- Three requests to a worker with one permit and the limit one: the first waits for the permit,
the second is read. -/
def threeRequests : List (Action UInt32) :=
  [.spawn 0 "embed" 1 1, .newClient 0 3,
    .begin 0 0 (.embed "e5" ["a"] 64), .call 0 .acquire, .call 0 (.connect 0 0), .call 0 (.send 64),
    .begin 1 0 (.embed "e5" ["b"] 64), .call 1 .acquire, .call 1 (.connect 1 0), .call 1 (.send 64),
    .begin 2 0 (.embed "e5" ["c"] 64), .call 2 .acquire, .call 2 (.connect 2 0), .call 2 (.send 64),
    .server 0 .accept, .server 0 .read, .server 0 .fetchAdd, .server 1 .accept, .server 1 .read]

/-- A task that increments the counter finds it below the limit. -/
def Below (s : State F) : Action F → Prop
  | .server c .fetchAdd => ∀ k ∈ s.conns c, ∀ wk ∈ s.workers k.worker, wk.waiters < wk.maxWaiters
  | _ => True

instance (s : State F) (a : Action F) : Decidable (Below s a) := by
  unfold Below
  split <;> infer_instance

theorem Settled.of_below (h : Below s a) : Settled s a := by
  unfold Below at h
  unfold Settled
  split
  · exact fun k wk hc hw hle => absurd hle (Nat.not_le.mpr (h k hc wk hw))
  · trivial

/-- The second request is rejected while the first one waits for the permit. -/
theorem neverSpurious_threeRequests :
    ∃ s, (machine Postcard.wireFormat).Path (fun _ _ => True) .start
        (threeRequests ++ [.server 1 .fetchAdd]) s ∧ Rejects s 1 ∧
      NeverSpurious Postcard.wireFormat (threeRequests ++ [.server 1 .fetchAdd]) := by
  obtain ⟨s, hs, hone, hwaiting, hworker, s', h, hlast⟩ :
      ∃ s ∈ (machine Postcard.wireFormat).runUnder Below .start threeRequests,
        (s.conns 1).map Conn.worker = some 0 ∧
        ((s.conns 0).map fun k => (k.worker, k.task.isWaiting)) = some (0, true) ∧
        ((s.workers 0).map fun wk => (wk.alive, wk.maxWaiters, wk.waiters)) = some (true, 1, 1) ∧
        ∃ s' ∈ (machine Postcard.wireFormat).step s (.server 1 .fetchAdd),
          (s'.conns 1).map Conn.task =
            some (.rejecting (.embed ⟨1, "e5", ["b"], 64⟩) "worker queue overflow") := by
    decide +kernel
  have hpath : (machine Postcard.wireFormat).Path Below .start threeRequests s := .of_runUnder hs
  have htrue := hpath.mono (D := fun _ _ => True) fun _ _ _ => trivial
  obtain ⟨k₀, hc₀, hk₀⟩ := Option.map_eq_some_iff.mp hwaiting
  obtain ⟨wk, hw, hwk⟩ := Option.map_eq_some_iff.mp hworker
  obtain ⟨k', hc', htask'⟩ := Option.map_eq_some_iff.mp hlast
  simp only [Prod.mk.injEq] at hk₀ hwk
  obtain ⟨halive, hmax, hwaiters⟩ := hwk
  -- the only counted task is the one that waits
  have hsettled : Settled s (.server 1 .fetchAdd) := by
    intro k wk' hc hw' _
    rw [hc, Option.map_some, Option.some.injEq] at hone
    rw [hone]
    obtain ⟨wk₁, hw₁, -, hcounts⟩ := accounted_of_path Postcard.wireFormat_lawful htrue
      (.head _ : .spawn 0 "embed" 1 1 ∈ threeRequests)
    obtain rfl := Option.some.inj (hw.symm.trans hw₁)
    have hsum := encard_waiting_add_passing s 0
    rw [(hcounts halive).waiters, hwaiters] at hsum
    have hpos : 1 ≤ (tasksAt s 0 Task.isWaiting).encard :=
      Set.one_le_encard_iff_nonempty.mpr ⟨0, k₀, hc₀, hk₀⟩
    have hzero : (tasksAt s 0 Task.isPassing).encard ≤ 0 :=
      (ENat.add_le_add_iff_left (ENat.natCast_ne_top 1)).mp
        ((add_le_add_left hpos _).trans hsum.le)
    exact Set.encard_eq_zero.mp (le_antisymm hzero zero_le)
  have hlast : (machine Postcard.wireFormat).Path (fun _ _ => True) .start
      (threeRequests ++ [.server 1 .fetchAdd]) s' := .snoc htrue trivial h
  refine ⟨s', hlast, ⟨k', _, hc', htask'⟩, ?_⟩
  exact ((neverSpurious_of_settled Postcard.wireFormat_lawful hlast).1
    (.snoc (hpath.mono fun _ _ => Settled.of_below) hsettled h)).1

/-- The second request is being rejected, and the first one has left the queue, when the third one
is rejected: no request waits. -/
theorem not_neverSpurious_threeRequests :
    ∃ s, (machine Postcard.wireFormat).Path (fun _ _ => True) .start
        (threeRequests ++ [.server 1 .fetchAdd, .server 0 .acquire, .server 0 .fetchSub,
          .server 2 .accept, .server 2 .read] ++ [.server 2 .fetchAdd]) s ∧ Rejects s 2 ∧
      ¬ NeverSpurious Postcard.wireFormat
        (threeRequests ++ [.server 1 .fetchAdd, .server 0 .acquire, .server 0 .fetchSub,
          .server 2 .accept, .server 2 .read] ++ [.server 2 .fetchAdd]) := by
  obtain ⟨s, hs, htwo, hpassing, hworker, s', h, hlast⟩ :
      ∃ s ∈ (machine Postcard.wireFormat).runUnder (fun _ _ => True) .start
          (threeRequests ++ [.server 1 .fetchAdd, .server 0 .acquire, .server 0 .fetchSub,
            .server 2 .accept, .server 2 .read]),
        (s.conns 2).map Conn.worker = some 0 ∧
        ((s.conns 1).map fun k => (k.worker, k.task.isPassing)) = some (0, true) ∧
        ((s.workers 0).map fun wk => (wk.maxWaiters, wk.waiters)) = some (1, 1) ∧
        ∃ s' ∈ (machine Postcard.wireFormat).step s (.server 2 .fetchAdd),
          (s'.conns 2).map Conn.task =
            some (.rejecting (.embed ⟨2, "e5", ["c"], 64⟩) "worker queue overflow") := by
    decide +kernel
  have hpath : (machine Postcard.wireFormat).Path (fun _ _ => True) .start _ s := .of_runUnder hs
  obtain ⟨k, hc, hk⟩ := Option.map_eq_some_iff.mp htwo
  obtain ⟨k₁, hc₁, hk₁⟩ := Option.map_eq_some_iff.mp hpassing
  obtain ⟨wk, hw, hwk⟩ := Option.map_eq_some_iff.mp hworker
  obtain ⟨k', hc', htask'⟩ := Option.map_eq_some_iff.mp hlast
  simp only [Prod.mk.injEq] at hk₁ hwk
  refine ⟨s', .snoc hpath trivial h, ⟨k', _, hc', htask'⟩, fun hnever => ?_⟩
  have hfull := hnever _ 2 s s' (List.prefix_refl _) hpath h ⟨k', _, hc', htask'⟩
  have hlimit : AtLimit s 2 := ⟨k, wk, hc, hk ▸ hw, hwk.2.trans hwk.1.symm⟩
  have hsettled :=
    (queueFull_iff_settled Postcard.wireFormat_lawful hpath h hlimit).2.mp hfull k wk hc (hk ▸ hw)
      (hwk.1.trans hwk.2.symm).le
  have hmem : 1 ∈ tasksAt s k.worker Task.isPassing := ⟨k₁, hc₁, hk₁.1.trans hk.symm, hk₁.2⟩
  rw [hsettled] at hmem
  exact hmem

end OxEmbed.Ipc

import OxEmbed.Ipc.Connections
import OxEmbed.Library.Counting

/-!
# The admission counters of a worker

A task increments `WAITERS` before it looks at the limit and decrements it on each of its ways out
of the admission. The counter holds the number of the tasks between the two, in every interleaving
of the tasks, and the semaphore hands out as many permits as the worker was started with.

## Main definitions

* `Task.counted`, `Task.holdsPermit` : the program points between the two operations on `WAITERS`,
  and those that hold an inference permit.
* `tasksAt` : the tasks of a worker at some program points.
* `Counts` : what the counters of a worker count.
* `CounterOp`, `counterOps` : the operations of one task on `WAITERS`.
* `Phase`, `InPhase` : the phases of a request that a task has read.

## Main results

* `counts_of_path` : the counters of a living worker count its tasks, in every run.
* `counterOps_of_path` : a task increments and decrements once for each request.
-/

namespace OxEmbed.Ipc

open Framing

variable {F : Type} {P : Postcard F} {s s' : State F} {a : Action F}

/-! ### Program points -/

/-- The task has incremented `WAITERS` and not decremented it yet. -/
def Task.counted : Task F → Bool
  | .rejecting _ _ | .waiting _ | .granted _ => true
  | _ => false

/-- The task holds an inference permit. -/
def Task.holdsPermit : Task F → Bool
  | .granted _ | .inferring _ | .writing _ .checked => true
  | _ => false

/-- The task was admitted and waits for a permit. -/
def Task.isWaiting : Task F → Bool
  | .waiting _ => true
  | _ => false

/-- The model runs for the task. -/
def Task.isInferring : Task F → Bool
  | .inferring _ => true
  | _ => false

/-- The task has read a request and is before `WAITERS.fetch_add`. -/
def Task.isAdmitting : Task F → Bool
  | .admitting _ => true
  | _ => false

/-- The task has read a request and not left the admission with it. -/
def Task.inAdmission (t : Task F) : Bool := t.isAdmitting || t.counted

theorem Task.counted_of_isWaiting {t : Task F} (h : t.isWaiting = true) : t.counted = true := by
  cases t <;> simp_all [isWaiting, counted]

theorem Task.holdsPermit_of_isInferring {t : Task F} (h : t.isInferring = true) :
    t.holdsPermit = true := by
  cases t <;> simp_all [isInferring, holdsPermit]

/-- The connections of the worker `w` whose tasks are at the program points `p`. -/
def tasksAt (s : State F) (w : ℕ) (p : Task F → Bool) : Set ℕ :=
  {c | ∃ k, s.conns c = some k ∧ k.worker = w ∧ p k.task = true}

theorem tasksAt_mono {p q : Task F → Bool} (h : ∀ t, p t = true → q t = true) (w : ℕ) :
    tasksAt s w p ⊆ tasksAt s w q :=
  fun _ ⟨k, hc, hkw, hp⟩ => ⟨k, hc, hkw, h k.task hp⟩

theorem mem_tasksAt {c w : ℕ} {k : Conn F} {p : Task F → Bool} (hc : s.conns c = some k)
    (hk : k.worker = w) : c ∈ tasksAt s w p ↔ p k.task = true := by
  refine ⟨fun ⟨k', hc', _, hp⟩ => ?_, fun hp => ⟨k, hc, hk, hp⟩⟩
  obtain rfl := Option.some.inj (hc.symm.trans hc')
  exact hp

theorem not_mem_tasksAt {c w : ℕ} {p : Task F → Bool} (hc : s.conns c = none) :
    c ∉ tasksAt s w p := by
  rintro ⟨k, hc', -⟩
  rw [hc] at hc'
  cases hc'

/-- A step that is not one of its task leaves a connection at its program point. -/
theorem mem_tasksAt_iff_of_other {c w : ℕ} {p : Task F → Bool} (hstep : ConnStep P s a s' c)
    (hp : p .backlog = false) (hkill : a ≠ .kill w)
    (hother : ∀ ev k, a = .server c ev → s.conns c = some k → k.worker ≠ w) :
    c ∈ tasksAt s w p ↔ c ∈ tasksAt s' w p := by
  cases hstep with
  | absent ha hc hc' => exact iff_of_false (not_mem_tasksAt hc) (not_mem_tasksAt hc')
  | opened ha hc hc' hw hnew =>
    refine iff_of_false (not_mem_tasksAt hc) fun ⟨k, hk, _, hpk⟩ => ?_
    obtain rfl := Option.some.inj (hc'.symm.trans hk)
    rw [hnew.task] at hpk
    exact Bool.false_ne_true (hp.symm.trans hpk)
  | @kept k k' ha hc hc' hkeep =>
    by_cases hkw : k.worker = w
    · rw [mem_tasksAt hc hkw, mem_tasksAt hc' (hkeep.worker.trans hkw), hkeep.task]
    · refine iff_of_false (fun ⟨k₁, hk₁, hw, _⟩ => ?_) (fun ⟨k₁, hk₁, hw, _⟩ => ?_)
      · obtain rfl := Option.some.inj (hc.symm.trans hk₁)
        exact hkw hw
      · obtain rfl := Option.some.inj (hc'.symm.trans hk₁)
        exact hkw (hkeep.worker.symm.trans hw)
  | @killed k ha hc hc' =>
    have hkw : k.worker ≠ w := by
      rintro rfl
      exact hkill ha
    refine iff_of_false (fun ⟨k₁, hk₁, hw, _⟩ => ?_) (fun ⟨k₁, hk₁, hw, _⟩ => ?_)
    · obtain rfl := Option.some.inj (hc.symm.trans hk₁)
      exact hkw hw
    · obtain rfl := Option.some.inj (hc'.symm.trans hk₁)
      exact hkw hw
  | @served k k' wk wk' ev ha hc hw halive hserve hc' =>
    have hkw := hother ev k ha hc
    have hkw' : k'.worker ≠ w := by
      rw [(serves_frame (serves_of_serve hserve)).1]
      exact hkw
    refine iff_of_false (fun ⟨k₁, hk₁, hw₁, _⟩ => ?_) (fun ⟨k₁, hk₁, hw₁, _⟩ => ?_)
    · obtain rfl := Option.some.inj (hc.symm.trans hk₁)
      exact hkw hw₁
    · obtain rfl := Option.some.inj (hc'.symm.trans hk₁)
      exact hkw' hw₁

/-- A step of the task of one connection changes the program point of no other task. -/
theorem oneChange_tasksAt {c w : ℕ} {ev : ServerEvent F} {k k' : Conn F} {p : Task F → Bool}
    (hstep : ∀ d, ConnStep P s (.server c ev) s' d) (hp : p .backlog = false)
    (hc : s.conns c = some k) (hk : k.worker = w) (hc' : s'.conns c = some k')
    (hk' : k'.worker = w) :
    OneChange (tasksAt s w p) (tasksAt s' w p) c (p k.task) (p k'.task) where
  before := mem_tasksAt hc hk
  after := mem_tasksAt hc' hk'
  others d hd := mem_tasksAt_iff_of_other (hstep d) hp nofun fun ev' k₁ ha => by
    exact absurd (Action.server.inj ha).1.symm hd

/-! ### The counters -/

/-- What the counters of the worker `w` count, when it was started with `poolSize` permits. -/
structure Counts (s : State F) (w poolSize : ℕ) (wk : Worker) : Prop where
  semaphoreOpen : wk.semaphoreClosed = false
  waiters : (tasksAt s w Task.counted).encard = wk.waiters
  waiting : (tasksAt s w Task.isWaiting).encard ≤ wk.maxWaiters
  permits : ∃ held : ℕ, (tasksAt s w Task.holdsPermit).encard = held ∧
    wk.permits + held = poolSize

/-- What a step of a task does to the counters. -/
structure CounterStep (wk wk' : Worker) (t t' : Task F) : Prop where
  semaphoreClosed : wk'.semaphoreClosed = wk.semaphoreClosed
  maxWaiters : wk'.maxWaiters = wk.maxWaiters
  waiters : t.counted.toNat ≤ wk.waiters →
    wk'.waiters + t.counted.toNat = wk.waiters + t'.counted.toNat
  permits : wk'.permits + t'.holdsPermit.toNat = wk.permits + t.holdsPermit.toNat
  /-- A task is admitted only while there is room. -/
  admitted : t'.isWaiting = true → t.isWaiting = true ∨ wk.waiters < wk.maxWaiters

/-- The counters after a step that writes a response, or gives up writing one. -/
structure Written (wk wk' : Worker) (t' : Task F) (onError : OnWriteError) : Prop where
  semaphoreClosed : wk'.semaphoreClosed = wk.semaphoreClosed
  maxWaiters : wk'.maxWaiters = wk.maxWaiters
  waiters : wk'.waiters = wk.waiters
  counted : t'.counted = false
  isWaiting : t'.isWaiting = false
  isAdmitting : t'.isAdmitting = false
  permits : wk'.permits + t'.holdsPermit.toNat = wk.permits + (onError == .checked).toNat

theorem written_leave (wk : Worker) (onError : OnWriteError) :
    Written wk (wk.leave onError) (.reading : Task F) onError := by
  cases onError <;> exact ⟨rfl, rfl, rfl, rfl, rfl, rfl, rfl⟩

theorem written_afterWriteError (wk : Worker) (why : Closed F) (onError : OnWriteError) :
    Written wk (wk.leave onError) (.afterWriteError why onError) onError := by
  cases onError <;> exact ⟨rfl, rfl, rfl, rfl, rfl, rfl, rfl⟩

theorem written_writing (wk : Worker) (rest : List UInt8) (onError : OnWriteError) :
    Written wk wk (.writing rest onError : Task F) onError := by
  cases onError <;> exact ⟨rfl, rfl, rfl, rfl, rfl, rfl, rfl⟩

theorem written_of_reply {wk wk' : Worker} {k k' : Conn F} {req : WorkerRequest F}
    {resp : WorkerResponse F} {onError : OnWriteError}
    (h : reply P wk k req resp onError = (wk', k')) : Written wk wk' k'.task onError := by
  rcases reply_cases h with ⟨-, rfl, rfl⟩ | ⟨-, rfl, rfl⟩
  · exact written_writing wk' _ onError
  · exact written_afterWriteError wk _ onError

theorem reply_requests {wk wk' : Worker} {k k' : Conn F} {req : WorkerRequest F}
    {resp : WorkerResponse F} {onError : OnWriteError}
    (h : reply P wk k req resp onError = (wk', k')) : k'.requests = k.requests := by
  rcases reply_cases h with ⟨-, rfl, rfl⟩ | ⟨-, rfl, rfl⟩ <;> rfl

theorem Written.counterStep {wk wk' : Worker} {t t' : Task F} {onError : OnWriteError}
    (h : Written wk wk' t' onError) (hcounted : t.counted = false)
    (hholds : t.holdsPermit = (onError == .checked)) : CounterStep wk wk' t t' where
  semaphoreClosed := h.semaphoreClosed
  maxWaiters := h.maxWaiters
  waiters _ := by rw [h.waiters, h.counted, hcounted]
  permits := by rw [h.permits, hholds]
  admitted hwaiting := by
    rw [h.isWaiting] at hwaiting
    cases hwaiting

/-- **Step lemma of the counters.** -/
theorem counterStep_of_serves {wk wk' : Worker} {k k' : Conn F} {ev : ServerEvent F}
    (h : Serves P wk k ev wk' k') : CounterStep wk wk' k.task k'.task := by
  cases h with
  | accept hk | read hk _ | malformed hk _ | readEnd hk _ =>
    rw [hk]
    exact ⟨rfl, rfl, fun _ => rfl, rfl, nofun⟩
  | overflow hk _ =>
    rw [hk]
    exact ⟨rfl, rfl, fun _ => rfl, rfl, nofun⟩
  | enqueue hk hroom =>
    rw [hk]
    exact ⟨rfl, rfl, fun _ => rfl, rfl, fun _ => .inr hroom⟩
  | refused hk _ =>
    rw [hk]
    exact ⟨rfl, rfl, fun _ => rfl, rfl, nofun⟩
  | acquire hk _ hpermit =>
    rw [hk]
    exact ⟨rfl, rfl, fun _ => rfl, Nat.sub_one_add_one hpermit, nofun⟩
  | reject hk hreply =>
    have hw := written_of_reply hreply
    rw [hk]
    refine ⟨hw.semaphoreClosed, hw.maxWaiters, fun hpos => ?_, hw.permits, fun hwaiting => ?_⟩
    · rw [hw.waiters, hw.counted]
      exact Nat.sub_one_add_one (Nat.one_le_iff_ne_zero.mp hpos)
    · rw [hw.isWaiting] at hwaiting
      cases hwaiting
  | grant hk =>
    rw [hk]
    refine ⟨rfl, rfl, fun hpos => ?_, rfl, nofun⟩
    exact Nat.sub_one_add_one (Nat.one_le_iff_ne_zero.mp hpos)
  | inferred r hk _ hreply =>
    rw [hk]
    exact (written_of_reply hreply).counterStep rfl rfl
  | @write rest onError n hk =>
    rw [hk]
    exact (written_writing wk _ onError).counterStep rfl (by cases onError <;> rfl)
  | @written onError hk =>
    rw [hk]
    exact (written_leave wk onError).counterStep rfl (by cases onError <;> rfl)
  | @writeFail rest onError hk =>
    rw [hk]
    exact (written_afterWriteError wk _ onError).counterStep rfl (by cases onError <;> rfl)

/-- A step of a task keeps what the counters of its worker count. -/
theorem Counts.serve {c w poolSize : ℕ} {ev : ServerEvent F} {k k' : Conn F} {wk wk' : Worker}
    (h : Counts s w poolSize wk) (hstep : ∀ d, ConnStep P s (.server c ev) s' d)
    (hc : s.conns c = some k) (hk : k.worker = w) (hserves : Serves P wk k ev wk' k')
    (hc' : s'.conns c = some k') : Counts s' w poolSize wk' := by
  have hcounter := counterStep_of_serves hserves
  have hk' : k'.worker = w := (serves_frame hserves).1.trans hk
  have hchange {p : Task F → Bool} (hp : p .backlog = false) :
      OneChange (tasksAt s w p) (tasksAt s' w p) c (p k.task) (p k'.task) :=
    oneChange_tasksAt hstep hp hc hk hc' hk'
  have hwaiters : (tasksAt s' w Task.counted).encard = wk'.waiters :=
    (hchange rfl).encard h.waiters hcounter.waiters
  refine ⟨hcounter.semaphoreClosed.trans h.semaphoreOpen, hwaiters, ?_, ?_⟩
  · rw [hcounter.maxWaiters]
    by_cases hadmitted : k'.task.isWaiting = true
    · rcases hcounter.admitted hadmitted with hwaiting | hroom
      · -- the task waited before the step, so the set of the waiting tasks is the same
        obtain ⟨n, hn⟩ := ENat.ne_top_iff_exists.1
          (ne_top_of_le_ne_top (ENat.natCast_ne_top _) h.waiting)
        have hsame := (hchange (p := Task.isWaiting) rfl).encard hn.symm fun _ => by
          rw [hadmitted, hwaiting]
        rw [hsame, hn]
        exact h.waiting
      · -- the task is admitted, and all waiting tasks are counted
        have hbound : wk'.waiters ≤ wk.maxWaiters := by
          have hsum := hcounter.waiters ((hchange (p := Task.counted) rfl).toNat_le h.waiters)
          have hle := Bool.toNat_le k'.task.counted
          omega
        calc (tasksAt s' w Task.isWaiting).encard
            ≤ (tasksAt s' w Task.counted).encard :=
              Set.encard_le_encard (tasksAt_mono (fun _ => Task.counted_of_isWaiting) w)
          _ = wk'.waiters := hwaiters
          _ ≤ wk.maxWaiters := by exact_mod_cast hbound
    · refine le_trans (Set.encard_le_encard fun d hd => ?_) h.waiting
      by_cases hdc : d = c
      · subst hdc
        exact absurd ((hchange (p := Task.isWaiting) rfl).after.1 hd) hadmitted
      · exact ((hchange (p := Task.isWaiting) rfl).others d hdc).2 hd
  · obtain ⟨held, hheld, hsum⟩ := h.permits
    have hpermits := hcounter.permits
    have hle := (hchange (p := Task.holdsPermit) rfl).toNat_le hheld
    refine ⟨held + k'.task.holdsPermit.toNat - k.task.holdsPermit.toNat, ?_, by omega⟩
    exact (hchange rfl).encard hheld fun _ => by omega

/-- Steps of other tasks keep what the counters of a worker count. -/
theorem Counts.other {w poolSize : ℕ} {wk : Worker} (h : Counts s w poolSize wk)
    (hstep : ∀ d, ConnStep P s a s' d) (hkill : a ≠ .kill w)
    (hother : ∀ c ev k, a = .server c ev → s.conns c = some k → k.worker ≠ w) :
    Counts s' w poolSize wk := by
  have hsame {p : Task F → Bool} (hp : p .backlog = false) : tasksAt s w p = tasksAt s' w p := by
    ext c
    exact mem_tasksAt_iff_of_other (hstep c) hp hkill fun ev k ha hc => hother c ev k ha hc
  exact ⟨h.semaphoreOpen, hsame (p := Task.counted) rfl ▸ h.waiters,
    hsame (p := Task.isWaiting) rfl ▸ h.waiting, hsame (p := Task.holdsPermit) rfl ▸ h.permits⟩

/-- A worker that starts counts nothing. -/
theorem counts_spawn {w poolSize maxWaiters : ℕ} (kind : String)
    (hnone : ∀ c k, s.conns c = some k → k.worker ≠ w) :
    Counts s w poolSize ⟨kind, maxWaiters, 0, poolSize, false, true⟩ := by
  have hempty (p : Task F → Bool) : tasksAt s w p = ∅ :=
    Set.eq_empty_of_forall_notMem fun c ⟨k, hc, hk, _⟩ => hnone c k hc hk
  refine ⟨rfl, ?_, ?_, 0, ?_, rfl⟩
  · rw [hempty, Set.encard_empty]
    rfl
  · rw [hempty, Set.encard_empty]
    exact zero_le
  · rw [hempty, Set.encard_empty]
    rfl

variable {C : State F → Action F → Prop} {as : List (Action F)}

/-- The worker that a run has started with `spawn`, and what its counters count while it lives. -/
def Accounted (s : State F) (w maxWaiters poolSize : ℕ) : Prop :=
  ∃ wk, s.workers w = some wk ∧ wk.maxWaiters = maxWaiters ∧
    (wk.alive = true → Counts s w poolSize wk)

/-- **The counters of a living worker count its tasks**, in every run. -/
theorem accounted_of_path (hP : P.Lawful) (hp : (machine P).Path C .start as s)
    {w maxWaiters poolSize : ℕ} {kind : String}
    (hspawn : .spawn w kind maxWaiters poolSize ∈ as) : Accounted s w maxWaiters poolSize := by
  induction hp with
  | nil => cases hspawn
  | @snoc s s' a as hp _ h ih =>
    have htrans := trans_of_step h
    have hconn := connStep_of_trans htrans
    have hinv : Inv P s := inv_of_reachable hP ((Machine.Reachable.init rfl).path hp)
    rw [List.mem_append, List.mem_singleton] at hspawn
    cases workerStep_of_trans htrans w with
    | @spawned kind' maxWaiters' poolSize' ha hw hw' =>
      have ha' : .spawn w kind maxWaiters poolSize = a := by
        refine hspawn.resolve_left fun hmem => ?_
        obtain ⟨wk, hwk, -⟩ := ih hmem
        rw [hw] at hwk
        cases hwk
      obtain ⟨-, rfl, rfl, rfl⟩ := Action.spawn.inj (ha'.trans ha)
      refine ⟨_, hw', rfl, fun _ => counts_spawn kind fun c k' hc' hk' => ?_⟩
      -- every connection is to a worker that was started before
      cases hconn c with
      | absent _ _ hnone =>
        rw [hc'] at hnone
        cases hnone
      | opened _ _ hsome hwk =>
        obtain rfl := Option.some.inj (hc'.symm.trans hsome)
        rw [hk', hw] at hwk
        cases hwk
      | @kept k _ _ hc hsome hkeep =>
        obtain rfl := Option.some.inj (hc'.symm.trans hsome)
        obtain ⟨wk, hwk, -⟩ := hinv.conn c k hc
        rw [← hkeep.worker, hk', hw] at hwk
        cases hwk
      | killed hkill =>
        rw [ha] at hkill
        cases hkill
      | served hserver =>
        rw [ha] at hserver
        cases hserver
    | @killed wk ha hw hw' =>
      obtain ⟨wk₀, hwk₀, hmax, -⟩ := ih (hspawn.resolve_right fun ha' => nomatch ha'.trans ha)
      obtain rfl := Option.some.inj (hw.symm.trans hwk₀)
      exact ⟨_, hw', hmax, nofun⟩
    | kept hnot hkill hw' hother =>
      obtain ⟨wk, hwk, hmax, hcounts⟩ := ih (hspawn.resolve_right fun ha => hnot _ _ _ ha.symm)
      exact ⟨wk, hw'.trans hwk, hmax, fun halive => (hcounts halive).other hconn hkill hother⟩
    | @served c ev k k' wk wk' ha hc hk hw hserve hc' hw' =>
      obtain ⟨wk₀, hwk₀, hmax, hcounts⟩ := ih (hspawn.resolve_right fun ha' => nomatch ha'.trans ha)
      obtain rfl := Option.some.inj (hw.symm.trans hwk₀)
      subst ha
      have hserves := serves_of_serve hserve
      refine ⟨wk', hw', (counterStep_of_serves hserves).maxWaiters.trans hmax, fun halive => ?_⟩
      rw [(serves_frame hserves).2.2.2] at halive
      exact (hcounts halive).serve hconn hc hk hserves hc'

/-! ### The requests of one task -/

/-- The operations of a task on `WAITERS`. -/
inductive CounterOp
  | add
  | sub
  deriving DecidableEq

/-- The operation on `WAITERS` that the task of the connection `c` makes in a step. -/
def counterOp (c : ℕ) : Action F → Option CounterOp
  | .server d .fetchAdd => if d = c then some .add else none
  | .server d .fetchSub => if d = c then some .sub else none
  | _ => none

/-- The operations on `WAITERS` that the task of the connection `c` makes in a run. -/
def counterOps (c : ℕ) (as : List (Action F)) : List CounterOp := as.filterMap (counterOp c)

/-- The operations of the task for its request number `j`, when it makes two for each request. -/
def requestOps (ops : List CounterOp) (j : ℕ) : List CounterOp := (ops.drop (2 * j)).take 2

/-- The phases of a request. -/
inductive Phase
  /-- Until `WAITERS` was compared with the limit and, when it is over the limit, decremented. -/
  | admitting
  /-- The reply is an overflow error. -/
  | rejected
  /-- Admitted, until the semaphore has given a permit and `WAITERS` was decremented. -/
  | waiting
  /-- The model runs. -/
  | running
  /-- The reply of the blocking task was passed to `write_frame`. -/
  | answered
  deriving DecidableEq

/-- The phase of the request that a task is handling. -/
def Task.phase : Task F → Option Phase
  | .admitting _ | .rejecting _ _ => some .admitting
  | .waiting _ | .granted _ => some .waiting
  | .inferring _ => some .running
  | .closed (.tooLarge _) => some .answered
  | _ => none

/-- The phase of a request whose reply was passed to `write_frame`. -/
def replyPhase : WorkerResponse F → Phase
  | .err _ message => if message = "worker queue overflow" then .rejected else .answered
  | _ => .answered

/-- The phases that the request number `j` of a connection is in. -/
inductive InPhase (k : Conn F) (j : ℕ) : Phase → Prop
  | replied {resp : WorkerResponse F} (hj : k.responses[j]? = some resp) :
      InPhase k j (replyPhase resp)
  | handled {phase : Phase} (hj : j + 1 = k.requests.length) (hphase : k.task.phase = some phase) :
      InPhase k j phase

/-- The operations on `WAITERS` that the task has made for a request in a phase. -/
def Phase.Balanced : Phase → List CounterOp → Prop
  | .admitting, ops => ops = [] ∨ ops = [.add]
  | .waiting, ops => ops = [.add]
  | .rejected, ops | .running, ops | .answered, ops => ops = [.add, .sub]

/-- The increment that the task has not undone yet. -/
def Task.openOps (t : Task F) : List CounterOp := if t.counted then [.add] else []

/-- The task has made both operations on `WAITERS` for its first `n` requests, and handles no other
request outside the admission. -/
structure Conn.Undone (k : Conn F) (ops : List CounterOp) (n : ℕ) : Prop where
  ops_eq : ops = (List.replicate n [CounterOp.add, .sub]).flatten ++ k.task.openOps
  requests : k.requests.length = n + k.task.inAdmission.toNat

theorem phase_isSome_of_unanswered {t : Task F} {req : WorkerRequest F}
    (h : t.unanswered = some req) (hlive : ∀ r, t ≠ .closed (.killed r)) :
    ∃ phase, t.phase = some phase := by
  unfold Task.unanswered at h
  split at h
  · exact ⟨_, rfl⟩
  · exact ⟨_, rfl⟩
  · exact ⟨_, rfl⟩
  · exact ⟨_, rfl⟩
  · exact ⟨_, rfl⟩
  · exact ⟨_, rfl⟩
  · exact absurd rfl (hlive _)
  · cases h

theorem unanswered_of_phase {t : Task F} {phase : Phase} (h : t.phase = some phase) :
    ∃ req, t.unanswered = some req := by
  unfold Task.phase at h
  split at h
  all_goals first | exact ⟨_, rfl⟩ | cases h

variable {k k' : Conn F} {ops : List CounterOp} {n j : ℕ} {kind : String}

/-- A connection has one response for each request but the one that is being handled. -/
theorem Conn.Answered.length_requests (h : k.Answered P kind) :
    k.requests.length = k.responses.length + k.task.unanswered.toList.length := by
  obtain ⟨reqs, hreqs, hall⟩ := h.answered
  rw [hreqs, List.length_append, hall.length_eq]

/-- **Every request is in exactly one phase.** -/
theorem existsUnique_phase (h : k.Answered P kind) (hlive : ∀ r, k.task ≠ .closed (.killed r))
    (hj : j < k.requests.length) : ∃! phase, InPhase k j phase := by
  have hlen := h.length_requests
  by_cases hreplied : j < k.responses.length
  · refine ⟨_, .replied (List.getElem?_eq_getElem hreplied), fun phase hphase => ?_⟩
    cases hphase with
    | replied hj' =>
      rw [List.getElem?_eq_getElem hreplied] at hj'
      rw [Option.some.inj hj']
    | handled hj' hphase =>
      obtain ⟨req, hreq⟩ := unanswered_of_phase hphase
      rw [hreq] at hlen
      simp only [Option.toList_some, List.length_singleton] at hlen
      omega
  · cases hreq : k.task.unanswered with
    | none =>
      rw [hreq] at hlen
      simp only [Option.toList_none, List.length_nil] at hlen
      omega
    | some req =>
      rw [hreq] at hlen
      simp only [Option.toList_some, List.length_singleton] at hlen
      obtain ⟨phase, hphase⟩ := phase_isSome_of_unanswered hreq hlive
      refine ⟨phase, .handled (by omega) hphase, fun phase' hphase' => ?_⟩
      cases hphase' with
      | replied hj' =>
        rw [List.getElem?_eq_none (Nat.le_of_not_lt hreplied)] at hj'
        cases hj'
      | handled _ hphase' => exact Option.some.inj (hphase'.symm.trans hphase)

theorem requestOps_of_lt (rest : List CounterOp) (hj : j < n) :
    requestOps ((List.replicate n [CounterOp.add, .sub]).flatten ++ rest) j = [.add, .sub] := by
  obtain ⟨m, rfl⟩ := Nat.exists_eq_add_of_lt hj
  rw [show j + m + 1 = j + (m + 1) from rfl, List.replicate_add, List.flatten_append,
    List.append_assoc, requestOps, List.drop_left' (by simp [Nat.mul_comm])]
  rfl

theorem requestOps_self (rest : List CounterOp) :
    requestOps ((List.replicate n [CounterOp.add, .sub]).flatten ++ rest) n = rest.take 2 := by
  rw [requestOps, List.drop_left' (by simp [Nat.mul_comm])]

theorem Task.inAdmission_le (t : Task F) :
    t.inAdmission.toNat ≤ t.unanswered.toList.length := by
  cases t <;> simp [inAdmission, isAdmitting, counted, unanswered]

theorem balanced_replyPhase (resp : WorkerResponse F) :
    (replyPhase resp).Balanced [.add, .sub] := by
  fun_cases replyPhase resp <;> exact rfl

/-- The phase of a task in the admission has the operations that are open, and any other phase has
both. -/
theorem Task.balanced_of_phase {t : Task F} {phase : Phase} (h : t.phase = some phase) :
    phase.Balanced (if t.inAdmission then t.openOps.take 2 else [.add, .sub]) := by
  unfold Task.phase at h
  split at h
  · obtain rfl := Option.some.inj h
    exact .inl rfl
  · obtain rfl := Option.some.inj h
    exact .inr rfl
  · obtain rfl := Option.some.inj h
    exact rfl
  · obtain rfl := Option.some.inj h
    exact rfl
  · obtain rfl := Option.some.inj h
    exact rfl
  · obtain rfl := Option.some.inj h
    exact rfl
  · cases h

/-- The operations for a request are those of its phase. -/
theorem balanced_of_inPhase (h : k.Answered P kind) (hops : k.Undone ops n) {phase : Phase}
    (hphase : InPhase k j phase) : phase.Balanced (requestOps ops j) := by
  have hlen := h.length_requests
  have hrequests := hops.requests
  rw [hops.ops_eq]
  cases hphase with
  | @replied resp hj =>
    obtain ⟨hlt, -⟩ := List.getElem?_eq_some_iff.mp hj
    have hle := k.task.inAdmission_le
    rw [requestOps_of_lt _ (by omega)]
    exact balanced_replyPhase resp
  | handled hj hphase =>
    have hbalanced := Task.balanced_of_phase hphase
    cases hadm : k.task.inAdmission with
    | true =>
      -- the request is the one whose operations are open
      rw [hadm, Bool.toNat_true] at hrequests
      obtain rfl : j = n := by omega
      rw [if_pos hadm] at hbalanced
      rwa [requestOps_self]
    | false =>
      rw [hadm, Bool.toNat_false] at hrequests
      rw [requestOps_of_lt _ (by omega)]
      rwa [if_neg (by rw [hadm]; exact Bool.false_ne_true)] at hbalanced

theorem Conn.Undone.length_le (h : k.Undone ops n) : ops.length ≤ 2 * k.requests.length := by
  rw [h.ops_eq, h.requests, Task.openOps, Task.inAdmission]
  cases k.task.isAdmitting <;> cases k.task.counted <;> simp <;> omega

/-- The task is where it was. -/
theorem Conn.Undone.congr (h : k.Undone ops n) (hkeep : k.SameTask k') : k'.Undone ops n :=
  ⟨by rw [hkeep.task, h.ops_eq], by rw [hkeep.task, hkeep.requests, h.requests]⟩

/-- The task makes no operation. -/
theorem Conn.Undone.keep (h : k.Undone ops n) (hcounted : k'.task.counted = k.task.counted)
    (hrequests : k'.requests.length + k.task.isAdmitting.toNat =
      k.requests.length + k'.task.isAdmitting.toNat)
    (hboth : k.task.counted = true → k.task.isAdmitting = false ∧ k'.task.isAdmitting = false) :
    k'.Undone (ops ++ []) n := by
  obtain ⟨hops, hlen⟩ := h
  refine ⟨?_, ?_⟩
  · rw [List.append_nil, hops, Task.openOps, Task.openOps, hcounted]
  · rw [Task.inAdmission] at hlen ⊢
    rw [hcounted]
    cases hc : k.task.counted with
    | true =>
      obtain ⟨h₁, h₂⟩ := hboth hc
      rw [h₁, h₂] at hrequests
      rw [hc] at hlen
      simp only [Bool.or_true, Bool.toNat_true, Bool.toNat_false] at *
      omega
    | false =>
      rw [hc] at hlen
      simp only [Bool.or_false] at *
      omega

/-- The task increments the counter. -/
theorem Conn.Undone.increment (h : k.Undone ops n) (hadmitting : k.task.isAdmitting = true)
    (hcounted : k.task.counted = false) (hcounted' : k'.task.counted = true)
    (hrequests : k'.requests = k.requests) : k'.Undone (ops ++ [.add]) n := by
  obtain ⟨hops, hlen⟩ := h
  refine ⟨?_, ?_⟩
  · rw [hops, Task.openOps, Task.openOps, hcounted, hcounted']
    simp
  · rw [hrequests, hlen, Task.inAdmission, Task.inAdmission, hadmitting, hcounted']
    simp

/-- The task decrements the counter. -/
theorem Conn.Undone.decrement (h : k.Undone ops n) (hcounted : k.task.counted = true)
    (hcounted' : k'.task.counted = false) (hadmitting' : k'.task.isAdmitting = false)
    (hrequests : k'.requests = k.requests) : k'.Undone (ops ++ [.sub]) (n + 1) := by
  obtain ⟨hops, hlen⟩ := h
  refine ⟨?_, ?_⟩
  · rw [hops, Task.openOps, Task.openOps, hcounted, hcounted', List.replicate_add,
      List.flatten_append]
    simp
  · rw [hrequests, hlen, Task.inAdmission, Task.inAdmission, hcounted, hcounted', hadmitting']
    simp

/-- **Step lemma of the operations.** -/
theorem Conn.Undone.serve {wk wk' : Worker} {ev : ServerEvent F} (h : k.Undone ops n)
    (hserves : Serves P wk k ev wk' k') (c : ℕ) :
    ∃ n', k'.Undone (ops ++ (counterOp c (.server c ev)).toList) n' := by
  have hwritten {wk wk' : Worker} {o : OnWriteError} (hw : Written wk wk' k'.task o)
      (hrequests : k'.requests = k.requests) (hcounted : k.task.counted = false)
      (hadmitting : k.task.isAdmitting = false) : k'.Undone (ops ++ []) n :=
    h.keep (hw.counted.trans hcounted.symm) (by rw [hrequests, hadmitting, hw.isAdmitting])
      fun hc => absurd (hcounted.symm.trans hc) nofun
  cases hserves with
  | accept hk | malformed hk _ | readEnd hk _ =>
    exact ⟨n, h.keep (by rw [hk]; rfl) (by rw [hk]; rfl) (by rw [hk]; exact nofun)⟩
  | read hk hr =>
    refine ⟨n, h.keep (by rw [hk]; rfl) ?_ (by rw [hk]; exact nofun)⟩
    rw [hk, List.length_append]
    rfl
  | overflow hk _ | enqueue hk _ =>
    simp only [counterOp, if_pos, Option.toList_some]
    exact ⟨n, h.increment (by rw [hk]; rfl) (by rw [hk]; rfl) rfl rfl⟩
  | refused hk _ =>
    exact ⟨n, h.keep (by rw [hk]; rfl) (by rw [hk]; rfl) (by rw [hk]; exact fun _ => ⟨rfl, rfl⟩)⟩
  | acquire hk _ _ =>
    exact ⟨n, h.keep (by rw [hk]; rfl) (by rw [hk]; rfl) (by rw [hk]; exact fun _ => ⟨rfl, rfl⟩)⟩
  | reject hk hreply =>
    have hw := written_of_reply hreply
    simp only [counterOp, if_pos, Option.toList_some]
    exact ⟨n + 1, h.decrement (by rw [hk]; rfl) hw.counted hw.isAdmitting (reply_requests hreply)⟩
  | grant hk =>
    simp only [counterOp, if_pos, Option.toList_some]
    exact ⟨n + 1, h.decrement (by rw [hk]; rfl) rfl rfl rfl⟩
  | inferred r hk _ hreply =>
    exact ⟨n, hwritten (written_of_reply hreply) (reply_requests hreply) (by rw [hk]; rfl)
      (by rw [hk]; rfl)⟩
  | @write rest onError m hk =>
    exact ⟨n, hwritten (written_writing wk _ onError) rfl (by rw [hk]; rfl) (by rw [hk]; rfl)⟩
  | @written onError hk =>
    exact ⟨n, hwritten (written_leave wk onError) rfl (by rw [hk]; rfl) (by rw [hk]; rfl)⟩
  | @writeFail rest onError hk =>
    exact ⟨n, hwritten (written_afterWriteError wk _ onError) rfl (by rw [hk]; rfl)
      (by rw [hk]; rfl)⟩

theorem counterOps_snoc (c : ℕ) (as : List (Action F)) (a : Action F) :
    counterOps c (as ++ [a]) = counterOps c as ++ (counterOp c a).toList := by
  rw [counterOps, List.filterMap_append, counterOps]
  cases h : counterOp c a <;> simp [h]

theorem counterOps_of_other {c : ℕ} (as : List (Action F)) (ha : ∀ ev, a ≠ .server c ev) :
    counterOps c (as ++ [a]) = counterOps c as := by
  have hnone : counterOp c a = none := by
    unfold counterOp
    split
    · exact if_neg fun hd => ha _ (by rw [hd])
    · exact if_neg fun hd => ha _ (by rw [hd])
    · rfl
  rw [counterOps_snoc, hnone, Option.toList_none, List.append_nil]

/-- A task that makes a step has not ended. -/
theorem serves_not_closed {wk wk' : Worker} {k k' : Conn F} {ev : ServerEvent F}
    (h : Serves P wk k ev wk' k') (why : Closed F) : k.task ≠ .closed why := by
  cases h <;> simp [*]

/-- A task that is not killed has ended before. -/
theorem Conn.kill_eq (hlive : ∀ r, k.kill.task ≠ .closed (.killed r)) : k.kill = k := by
  obtain ⟨worker, peer, peerOpen, toWorker, toPeer, task, requests, responses⟩ := k
  cases task with
  | closed why => rfl
  | _ => exact absurd rfl (hlive _)

/-- **A task increments and decrements once for each request**, in every run. -/
theorem undone_of_path (hp : (machine P).Path C .start as s) (c : ℕ) :
    (s.conns c = none → counterOps c as = []) ∧
      ∀ k, s.conns c = some k → (∀ r, k.task ≠ .closed (.killed r)) →
        ∃ n, k.Undone (counterOps c as) n := by
  induction hp with
  | nil => exact ⟨fun _ => rfl, fun _ hc => (nomatch hc)⟩
  | @snoc s s' a as hp _ h ih =>
    obtain ⟨ihnone, ihsome⟩ := ih
    have hsome {k' : Conn F} (hc' : s'.conns c = some k')
        (hk' : (∀ r, k'.task ≠ .closed (.killed r)) →
          ∃ n, k'.Undone (counterOps c (as ++ [a])) n) :
        (s'.conns c = none → counterOps c (as ++ [a]) = []) ∧
          ∀ k, s'.conns c = some k → (∀ r, k.task ≠ .closed (.killed r)) →
            ∃ n, k.Undone (counterOps c (as ++ [a])) n := by
      refine ⟨fun hnone => ?_, fun k hk hlive => ?_⟩
      · rw [hc'] at hnone
        cases hnone
      · obtain rfl := Option.some.inj (hc'.symm.trans hk)
        exact hk' hlive
    cases connStep_of_trans (trans_of_step h) c with
    | absent ha hc hc' =>
      rw [counterOps_of_other as ha]
      refine ⟨fun _ => ihnone hc, fun k hk => ?_⟩
      rw [hc'] at hk
      cases hk
    | opened ha hc hc' hw hnew =>
      refine hsome hc' fun _ => ⟨0, ?_⟩
      rw [counterOps_of_other as ha, ihnone hc]
      exact Conn.Undone.congr ⟨rfl, rfl⟩ hnew
    | kept ha hc hc' hkeep =>
      refine hsome hc' fun hlive => ?_
      rw [counterOps_of_other as ha]
      obtain ⟨n, hn⟩ := ihsome _ hc fun r hr => hlive r (hkeep.task.trans hr)
      exact ⟨n, hn.congr hkeep⟩
    | @killed k ha hc hc' =>
      refine hsome hc' fun hlive => ?_
      have hsame := Conn.kill_eq hlive
      rw [hsame] at hlive ⊢
      rw [counterOps_of_other as (by rw [ha]; exact nofun)]
      exact ihsome k hc hlive
    | @served k k' wk wk' ev ha hc hw halive hserve hc' =>
      have hserves := serves_of_serve hserve
      refine hsome hc' fun _ => ?_
      obtain ⟨n, hn⟩ := ihsome k hc fun r => serves_not_closed hserves (.killed r)
      rw [counterOps_snoc, ha]
      exact hn.serve hserves c

end OxEmbed.Ipc

import OxEmbed.Batcher.Drain

/-!
# Backpressure

`embed_tokens` rejects a request when the queue is at least 80 percent full. It computes the limit
with integer arithmetic, `max_queue * 8 / 10`, so the limit is 80 percent rounded down. A request
that passes this check may still find the channel full when it calls `try_send`, because other
producers come in between; then it is rejected as well. A request that was rejected has not touched
the channel.

## Main definitions

* `BatcherConfig.threshold` : the depth from which a request is rejected.
* `Overloaded` : the queue has reached the threshold.
* `Rejection` : the two steps that reject a request, with the state of the queue at each.
* `Backpressure` : the contract of the bounded queue.

## Main results

* `length_le_of_reachable` : the channel never holds more than `max_queue` items.
* `exists_rejection` : every rejection was decided by a step of the call that saw the queue so full.
* `backpressure` : the contract holds after every run.
-/

namespace OxEmbed.Batcher

open Text (usizeMax)

variable {F V : Type}

/-! ### The threshold -/

/-- The depth of the queue from which a request is rejected. -/
def BatcherConfig.threshold (cfg : BatcherConfig F) : ℕ := saturatingMul cfg.maxQueue.toNat 8 / 10

/-- The largest capacity of a channel of `tokio`, `Semaphore::MAX_PERMITS`. -/
def maxPermits : ℕ := usizeMax / 8

/-- The queue has reached the threshold: the slots are 80 percent full, rounded down. -/
structure Overloaded (cfg : BatcherConfig F) (s : State V) : Prop where
  threshold : cfg.threshold ≤ s.channel.length
  /-- One item less than 80 percent of the slots does not fill them so far. -/
  eighty : cfg.maxQueue.toNat ≤ maxPermits → 8 * cfg.maxQueue.toNat < 10 * (s.channel.length + 1)
  nonempty : 2 ≤ cfg.maxQueue.toNat → s.channel ≠ []

variable {cfg : BatcherConfig F} {s s' s₁ s₂ : State V} {a : Action V} {as : List (Action V)}
  {C : State V → Action V → Prop}

/-- For a capacity that a channel can have, the product does not saturate. -/
theorem threshold_eq (h : cfg.maxQueue.toNat ≤ maxPermits) :
    cfg.threshold = 8 * cfg.maxQueue.toNat / 10 := by
  have hle : cfg.maxQueue.toNat * 8 ≤ usizeMax := (Nat.le_div_iff_mul_le (by decide)).mp h
  rw [BatcherConfig.threshold, saturatingMul, min_eq_left hle, mul_comm]

theorem one_le_threshold (h : 2 ≤ cfg.maxQueue.toNat) : 1 ≤ cfg.threshold := by
  have hsize : 10 ≤ saturatingMul cfg.maxQueue.toNat 8 := by
    refine le_min ?_ (by decide)
    omega
  exact (Nat.le_div_iff_mul_le (by decide)).mpr hsize

theorem overloaded_of_threshold (h : cfg.threshold ≤ s.channel.length) : Overloaded cfg s where
  threshold := h
  eighty hsize := by
    rw [threshold_eq hsize] at h
    omega
  nonempty hsize := List.ne_nil_of_length_pos ((one_le_threshold hsize).trans h)

/-- The producer computes the length of the queue. -/
theorem depth_eq (h : s.channel.length ≤ cfg.maxQueue.toNat) : s.depth cfg = s.channel.length :=
  Nat.sub_sub_self h

variable [RatioArith F]

/-! ### The channel -/

/-- **The channel never holds more than `max_queue` items.** -/
theorem length_le_of_reachable (hs : (machine V cfg).Reachable C s) :
    s.channel.length ≤ cfg.maxQueue.toNat := by
  refine hs.invariant (P := fun s => s.channel.length ≤ cfg.maxQueue.toNat) ?_ ?_
  · rintro _ ⟨-, rfl⟩
    exact Nat.zero_le _
  · intro s a s' h _ hstep
    have hpop {item : Item} {rest : List Item} (hq : s.channel = item :: rest) :
        rest.length ≤ cfg.maxQueue.toNat := by
      rw [hq, List.length_cons] at h
      omega
    cases trans_of_step hstep with
    | takeFirst _ _ hq => exact hpop hq
    | skip _ _ hq | defer _ _ hq | join _ _ hq => exact hpop hq
    | enqueue _ _ hc =>
      rw [State.capacity] at hc
      simp only [List.length_append, List.length_singleton]
      omega
    | _ => exact h

/-- When the worker has ended, no producer is about to send. -/
theorem checked_eq_nil_of_over (hs : (machine V cfg).Reachable C s) (ho : s.phase.Over = true) :
    s.checked = [] := by
  have hclosed := hs.invariant_of_reachable
    (P := fun s => (s.closed = true → s.checked = []) ∧ (s.phase.Over = true → s.closed = true)) ?_
    ?_
  · exact hclosed.1 (hclosed.2 ho)
  · rintro _ ⟨-, rfl⟩
    exact ⟨fun _ => rfl, fun h => absurd h Bool.false_ne_true⟩
  · rintro s a s' hr ⟨hchecked, hover⟩ - hstep
    cases trans_of_step hstep with
    | stop _ _ _ hcl => exact ⟨hchecked, fun _ => hcl⟩
    | submitChecked hcl => exact ⟨fun h => absurd (hcl.symm.trans h) Bool.false_ne_true, hover⟩
    | sendFull hi | enqueue hi =>
      exact ⟨fun h => absurd (hchecked h ▸ hi) List.not_mem_nil, hover⟩
    | close hc => exact ⟨fun _ => hc, fun _ => rfl⟩
    | skip | submitEmpty | submitFull | cancel => exact ⟨hchecked, hover⟩
    | drainPanic hp hn =>
      have hsound := (sending_of_reachable hr).sound
      rw [hp, Phase.Sound, List.map_cons, List.sum_cons] at hsound
      omega
    | @embedDone counts replies ids o =>
      refine ⟨hchecked, fun h => ?_⟩
      rcases afterEmbed_eq counts replies ids.length o with ⟨msg, he⟩ | ⟨vecs, -, -, he⟩ <;>
        simp [he, Phase.Over] at h
    | _ => exact ⟨hchecked, fun h => absurd h Bool.false_ne_true⟩

/-- A call that returned without waiting for a reply has no item, in the channel or before it. -/
structure Refused (s : State V) : Prop where
  lt : ∀ p ∈ s.returned, p.1 < s.nextCall
  noItem : ∀ p ∈ s.returned, p.1 ∉ (s.accepted ++ s.checked).map Item.reply

theorem refused_of_reachable (hs : (machine V cfg).Reachable C s) : Refused s := by
  refine hs.invariant_of_reachable (P := Refused) ?_ ?_
  · rintro _ ⟨-, rfl⟩
    exact ⟨nofun, nofun⟩
  · intro s a s' hr h _ hstep
    have hnumbered := numbered_of_reachable hr
    -- the number of a new call belongs to no item
    have hnew : s.nextCall ∉ (s.accepted ++ s.checked).map Item.reply := by
      intro hm
      obtain ⟨item, hi, hreply⟩ := List.mem_map.mp hm
      exact absurd (hnumbered.lt item hi) (by omega)
    cases trans_of_step hstep with
    | submitEmpty | submitFull =>
      constructor <;> intro p hp <;> rcases List.mem_append.mp hp with hp | hp
      · exact Nat.lt_succ_of_lt (h.lt p hp)
      · rw [List.mem_singleton.mp hp]
        exact Nat.lt_succ_self _
      · exact h.noItem p hp
      · rw [List.mem_singleton.mp hp]
        exact hnew
    | submitChecked =>
      refine ⟨fun p hp => Nat.lt_succ_of_lt (h.lt p hp), fun p hp hm => ?_⟩
      rw [← List.append_assoc, List.map_append] at hm
      rcases List.mem_append.mp hm with hm | hm
      · exact h.noItem p hp hm
      · have hlt := h.lt p hp
        rw [List.mem_singleton.mp hm] at hlt
        exact absurd hlt (Nat.lt_irrefl _)
    | @sendFull item hi =>
      have hperm : (s.accepted ++ s.checked).Perm (item :: (s.accepted ++ s.checked.erase item)) :=
        ((List.Perm.refl _).append (List.perm_cons_erase hi)).trans List.perm_middle
      have hnodup : (item.reply :: (s.accepted ++ s.checked.erase item).map Item.reply).Nodup :=
        (hperm.map Item.reply).nodup_iff.mp hnumbered.nodup
      have hsub : s.accepted ++ s.checked.erase item ⊆ s.accepted ++ s.checked :=
        fun x hx => hperm.mem_iff.mpr (List.mem_cons_of_mem _ hx)
      constructor <;> intro p hp <;> rcases List.mem_append.mp hp with hp | hp
      · exact h.lt p hp
      · rw [List.mem_singleton.mp hp]
        exact hnumbered.lt item (List.mem_append_right _ hi)
      · exact fun hm => h.noItem p hp (List.map_subset _ hsub hm)
      · rw [List.mem_singleton.mp hp]
        exact (List.nodup_cons.mp hnodup).1
    | @enqueue item hi =>
      have hperm : (s.accepted ++ [item] ++ s.checked.erase item).Perm
          (s.accepted ++ s.checked) := by
        rw [List.append_assoc]
        exact (List.Perm.refl _).append (List.perm_cons_erase hi).symm
      exact ⟨h.lt, fun p hp hm => h.noItem p hp ((hperm.map Item.reply).mem_iff.mp hm)⟩
    | _ => exact ⟨h.lt, h.noItem⟩

/-! ### Rejections -/

/-- The step rejects call `r`: its depth check finds the queue overloaded, or its `try_send` finds
every slot taken. -/
inductive Rejection (cfg : BatcherConfig F) (s : State V) (r : ℕ) : Action V → Prop
  | depth {tokenIds} (hr : s.nextCall = r) (hne : tokenIds ≠ []) (h : Overloaded cfg s) :
      Rejection cfg s r (.submit tokenIds)
  | full {item} (hr : item.reply = r) (h : s.channel.length = cfg.maxQueue.toNat) :
      Rejection cfg s r (.trySend item)

/-- **Step lemma.** A call that returns an error at a step is rejected by it, and the step does not
touch the channel. -/
theorem rejection_of_step (hs : (machine V cfg).Reachable C s) (hstep : step cfg s a = some s')
    {r : ℕ} {e : BatchError} (h' : (r, .error e) ∈ s'.returned)
    (h : (r, .error e) ∉ s.returned) : Rejection cfg s r a ∧ s'.channel = s.channel := by
  have hle := length_le_of_reachable hs
  have hlast {x : ℕ × Except BatchError (List V)}
      (h' : (r, .error e) ∈ s.returned ++ [x]) : (r, .error e) = x :=
    List.mem_singleton.mp ((List.mem_append.mp h').resolve_left h)
  cases trans_of_step hstep with
  | submitEmpty => cases hlast h'
  | submitFull _ hne hd =>
    obtain rfl := (Prod.mk.inj (hlast h')).1
    rw [depth_eq hle] at hd
    exact ⟨.depth rfl hne (overloaded_of_threshold hd), rfl⟩
  | sendFull hi hf =>
    obtain rfl := (Prod.mk.inj (hlast h')).1
    refine ⟨.full rfl ?_, rfl⟩
    rcases hf with ho | hc
    · rw [checked_eq_nil_of_over hs ho] at hi
      exact absurd hi List.not_mem_nil
    · rw [State.capacity] at hc
      omega
  | _ => exact absurd h' h

/-- **Every rejection was decided by a step of the call that saw the queue so full**, in every
run. -/
theorem exists_rejection (hinit : (machine V cfg).Init (start : State V))
    (hp : (machine V cfg).Path C start as s) {r : ℕ} {e : BatchError}
    (h : (r, .error e) ∈ s.returned) :
    ∃ pre a s₁ s₂, pre ++ [a] <+: as ∧ (machine V cfg).Path C start pre s₁ ∧
      (machine V cfg).step s₁ a = some s₂ ∧ Rejection cfg s₁ r a ∧ s₂.channel = s₁.channel := by
  induction hp with
  | nil => cases h
  | @snoc s s' a as hp _ hstep ih =>
    by_cases hearlier : (r, .error e) ∈ s.returned
    · obtain ⟨pre, a', s₁, s₂, hpre, hrest⟩ := ih hearlier
      exact ⟨pre, a', s₁, s₂, hpre.trans (List.prefix_append as [a]), hrest⟩
    · have hs := (Machine.Reachable.init hinit).path hp
      exact ⟨as, a, s, s', List.prefix_refl _, hp, hstep, rejection_of_step hs hstep h hearlier⟩

/-! ### The contract -/

/-- The contract of the bounded queue, after the run `as` to the state `s`. -/
structure Backpressure (cfg : BatcherConfig F) (as : List (Action V)) (s : State V) : Prop where
  /-- The channel never holds more than `max_queue` items. -/
  bounded : s.channel.length ≤ cfg.maxQueue.toNat
  /-- A request that was rejected has not entered the channel. -/
  unchanged : ∀ r e, (r, .error e) ∈ s.returned → ∀ item ∈ s.accepted, item.reply ≠ r
  /-- It was rejected by its depth check, with the queue overloaded, or by its `try_send`, with all
  slots taken, and that step did not touch the channel. -/
  decided : ∀ r e, (r, .error e) ∈ s.returned → ∃ pre a s₁ s₂, pre ++ [a] <+: as ∧
    (machine V cfg).Path (fun _ _ => True) start pre s₁ ∧ step cfg s₁ a = some s₂ ∧
    Rejection cfg s₁ r a ∧ s₂.channel = s₁.channel
  /-- A request that arrives at an empty queue of two or more slots passes the depth check. -/
  admits : ∀ tokenIds s', s.channel = [] → 2 ≤ cfg.maxQueue.toNat → tokenIds ≠ [] →
    step cfg s (.submit tokenIds) = some s' → s'.returned = s.returned ∧
      ∃ item ∈ s'.checked, item.reply = s.nextCall ∧ item.tokenIds = tokenIds
  /-- A request that calls `try_send` with a slot left enters the channel. -/
  accepts : ∀ item s', s.channel.length < cfg.maxQueue.toNat →
    step cfg s (.trySend item) = some s' → s'.channel = s.channel ++ [item]

/-- **Backpressure.** The contract holds after every run, of any number of producers with the
worker. -/
theorem backpressure (cfg : BatcherConfig F) (as : List (Action V)) (s : State V)
    (hsize : 0 < cfg.maxQueue.toNat)
    (hp : (machine V cfg).Path (fun _ _ => True) start as s) : Backpressure cfg as s := by
  have hinit : (machine V cfg).Init (start : State V) := ⟨hsize, rfl⟩
  have hs := (Machine.Reachable.init hinit).path hp
  have hle := length_le_of_reachable hs
  refine ⟨hle, fun r e hr item hi hreply => ?_, fun r e hr => exists_rejection hinit hp hr,
    fun tokenIds s' hempty htwo hne hstep => ?_, fun item s' hroom hstep => ?_⟩
  · refine (refused_of_reachable hs).noItem _ hr ?_
    rw [← hreply]
    exact List.mem_map_of_mem (List.mem_append_left _ hi)
  · cases trans_of_step hstep with
    | submitEmpty => exact absurd rfl hne
    | submitFull _ _ hd =>
      rw [depth_eq hle, hempty] at hd
      exact absurd ((one_le_threshold htwo).trans hd) (by simp)
    | submitChecked =>
      exact ⟨rfl, _, List.mem_append_right _ (List.mem_singleton_self _), rfl, rfl⟩
  · cases trans_of_step hstep with
    | sendFull hi hf =>
      rcases hf with ho | hc
      · rw [checked_eq_nil_of_over hs ho] at hi
        exact absurd hi List.not_mem_nil
      · rw [State.capacity] at hc
        omega
    | enqueue => rfl

/-! ### Small queues -/

/-- A batcher whose channel has `size` slots. -/
def sizedConfig (size : UInt64) : BatcherConfig ℚ := { pairConfig with maxQueue := size }

/-- Three requests wait, and a fourth one is rejected. -/
def fourRequests : List (Action ℕ) :=
  [.submit [[1]], .trySend (.ofTexts 0 [1] []), .submit [[2]], .trySend (.ofTexts 1 [2] []),
    .submit [[3]], .trySend (.ofTexts 2 [3] []), .submit [[4]]]

theorem backpressure_fourRequests :
    ∃ s, (machine ℕ (sizedConfig 4)).Path (fun _ _ => True) start fourRequests s ∧
      s.returned = [(3, .error (.queueFull "embed"))] ∧
      Backpressure (sizedConfig 4) fourRequests s := by
  obtain ⟨s, hs, hreturned⟩ : ∃ s ∈ (machine ℕ (sizedConfig 4)).runUnder (fun _ _ => True) start
      fourRequests, s.returned = [(3, .error (.queueFull "embed"))] := by decide
  have hp : (machine ℕ (sizedConfig 4)).Path (fun _ _ => True) start fourRequests s :=
    .of_runUnder hs
  exact ⟨s, hp, hreturned, backpressure (sizedConfig 4) fourRequests s (by decide) hp⟩

/-- Two slots: a request is rejected while only one is taken, and before and after its call that is
so; and a request that arrives at the empty queue is rejected, because two others overtake it. One
slot: every request is rejected, also at the empty queue. -/
theorem not_eighty_percent :
    (∃ s s', (machine ℕ (sizedConfig 2)).Path (fun _ _ => True) start (fourRequests.take 2) s ∧
      step (sizedConfig 2) s (.submit [[2]]) = some s' ∧
      s'.returned = [(1, .error (.queueFull "embed"))] ∧
      10 * s.channel.length < 8 * 2 ∧ 10 * s'.channel.length < 8 * 2) ∧
    (∃ s s', (machine ℕ (sizedConfig 2)).Path (fun _ _ => True) start [.submit [[1]], .submit [[2]]]
        s ∧ s.channel = [] ∧ (machine ℕ (sizedConfig 2)).Path (fun _ _ => True) s
        [.submit [[3]], .trySend (.ofTexts 0 [1] []), .trySend (.ofTexts 1 [2] []),
          .trySend (.ofTexts 2 [3] [])] s' ∧
      s'.returned = [(2, .error (.queueFull "embed"))]) ∧
    ∃ s', step (sizedConfig 1) (start : State ℕ) (.submit [[1]]) = some s' ∧
      s'.returned = [(0, .error (.queueFull "embed"))] := by
  refine ⟨?_, ?_, ?_⟩
  · obtain ⟨s, hs, s', hstep, hrest⟩ :
        ∃ s ∈ (machine ℕ (sizedConfig 2)).runUnder (fun _ _ => True) start (fourRequests.take 2),
          ∃ s' ∈ step (sizedConfig 2) s (.submit [[2]]),
            s'.returned = [(1, .error (.queueFull "embed"))] ∧
            10 * s.channel.length < 8 * 2 ∧ 10 * s'.channel.length < 8 * 2 := by decide
    exact ⟨s, s', .of_runUnder hs, hstep, hrest⟩
  · obtain ⟨s, hs, hempty, s', hs', hreturned⟩ :
        ∃ s ∈ (machine ℕ (sizedConfig 2)).runUnder (fun _ _ => True) start
            [.submit [[1]], .submit [[2]]],
          s.channel = [] ∧ ∃ s' ∈ (machine ℕ (sizedConfig 2)).runUnder (fun _ _ => True) s
            [.submit [[3]], .trySend (.ofTexts 0 [1] []), .trySend (.ofTexts 1 [2] []),
              .trySend (.ofTexts 2 [3] [])],
            s'.returned = [(2, .error (.queueFull "embed"))] := by decide
    exact ⟨s, s', .of_runUnder hs, hempty, .of_runUnder hs', hreturned⟩
  · obtain ⟨s', hstep, hreturned⟩ : ∃ s' ∈ step (sizedConfig 1) (start : State ℕ) (.submit [[1]]),
        s'.returned = [(0, .error (.queueFull "embed"))] := by decide
    exact ⟨s', hstep, hreturned⟩

end OxEmbed.Batcher

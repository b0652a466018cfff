import OxEmbed.Batcher.Basic
import OxEmbed.Library.Fifo

/-!
# Conservation and order of the batcher

The worker hands the accepted requests on in the order in which they were accepted, except that it
leaves out requests that were cancelled. The batcher refines a first-in first-out queue with
withdrawals (`OxEmbed.Fifo`): what waits is the current batch, then the carry slot, then the
channel, and what was taken are the dispatched batches.

An item is deferred at most once, because it leaves the channel when it enters the carry slot and
the next batch begins with it.

## Main definitions

* `Phase.current`, `State.waiting`, `State.fifo` : the batcher as a queue.
* `State.batches` : the batches begun so far.
* `Conserved` : conservation, order, and the place of the deferred items.

## Main results

* `refinement` : the batcher refines the queue.
* `conserved_of_reachable` : every reachable state is conserved.
-/

namespace OxEmbed.Batcher

variable {F V : Type} [RatioArith F] {cfg : BatcherConfig F} {s s' : State V} {a : Action V}
  {C : State V → Action V → Prop}

/-! ### The batcher as a queue -/

/-- The items of the batch that the worker is building or filtering. -/
def Phase.current : Phase V → List Item
  | .fill _ batch => batch
  | .retain kept todo => kept ++ todo
  | _ => []

namespace State

/-- The items that the worker has not dispatched or left out, in order. -/
def waiting (s : State V) : List Item := s.phase.current ++ s.carry.toList ++ s.channel

/-- The queue that the batcher implements. -/
def fifo (s : State V) : Fifo Item := ⟨s.accepted, s.skipped, s.waiting, s.dispatched.flatten⟩

/-- The batches begun so far, the last one being the one in the fill loop, if any. -/
def batches (s : State V) : List (List Item) :=
  s.formed ++ match s.phase with
    | .fill _ batch => [batch]
    | _ => []

end State

/-! ### The numbers of the calls -/

/-- Every call has its own number. -/
structure Numbered (s : State V) : Prop where
  nodup : ((s.accepted ++ s.checked).map Item.reply).Nodup
  lt : ∀ item ∈ s.accepted ++ s.checked, item.reply < s.nextCall

namespace Numbered

variable (h : Numbered s)

omit [RatioArith F] in
include h in
theorem notMem_accepted {item : Item} (hi : item ∈ s.checked) : item ∉ s.accepted := by
  intro ha
  have hnodup := h.nodup
  rw [List.map_append] at hnodup
  exact List.disjoint_of_nodup_append hnodup (List.mem_map_of_mem ha) (List.mem_map_of_mem hi)

omit [RatioArith F] in
include h in
theorem nodup_accepted : (s.accepted.map Item.reply).Nodup := by
  have hnodup := h.nodup
  rw [List.map_append] at hnodup
  exact (List.nodup_append.mp hnodup).1

end Numbered

theorem numbered_of_reachable (hs : (machine V cfg).Reachable C s) : Numbered s := by
  refine hs.invariant ?_ ?_
  · rintro _ ⟨-, rfl⟩
    exact ⟨List.nodup_nil, fun item hi => by simp [start] at hi⟩
  · intro s a s' h _ hstep
    cases trans_of_step hstep with
    | submitEmpty | submitFull => exact ⟨h.nodup, fun item hi => Nat.lt_succ_of_lt (h.lt item hi)⟩
    | @submitChecked tokenIds _ hne =>
      refine ⟨?_, fun item hi => ?_⟩
      · rw [← List.append_assoc, List.map_append]
        refine List.nodup_append.mpr ⟨h.nodup, List.nodup_singleton _, ?_⟩
        rintro r hr _ hn rfl
        obtain ⟨item, hi, rfl⟩ := List.mem_map.mp hr
        have hlt := h.lt item hi
        simp only [List.map_cons, List.map_nil, List.mem_singleton] at hn
        omega
      · rw [← List.append_assoc] at hi
        rcases List.mem_append.mp hi with hi | hi
        · exact Nat.lt_succ_of_lt (h.lt item hi)
        · rw [List.mem_singleton.mp hi]
          exact Nat.lt_succ_self _
    | @sendFull item hi =>
      have hsub : (s.accepted ++ s.checked.erase item).Sublist (s.accepted ++ s.checked) :=
        (List.Sublist.refl _).append List.erase_sublist
      exact ⟨h.nodup.sublist (hsub.map _), fun item hm => h.lt item (hsub.subset hm)⟩
    | @enqueue item hi =>
      have hperm : (s.accepted ++ [item] ++ s.checked.erase item).Perm
          (s.accepted ++ s.checked) := by
        rw [List.append_assoc]
        exact (List.Perm.refl _).append (List.perm_cons_erase hi).symm
      exact ⟨(hperm.map _).nodup_iff.mpr h.nodup, fun x hx => h.lt x (hperm.mem_iff.mp hx)⟩
    | _ => exact ⟨h.nodup, h.lt⟩

/-- The carry slot is empty while the worker fills a batch. -/
theorem carry_eq_none_of_fill (hs : (machine V cfg).Reachable C s) {accum : BatchAccum}
    {batch : List Item} (hp : s.phase = .fill accum batch) : s.carry = none := by
  refine hs.invariant
    (P := fun s => ∀ accum batch, s.phase = .fill accum batch → s.carry = none) ?_ ?_ _ _ hp
  · rintro _ ⟨-, rfl⟩ accum batch -
    rfl
  · intro s a s' h _ hstep accum batch hp'
    cases trans_of_step hstep with
    | takeCarry => rfl
    | takeFirst _ hc => exact hc
    | skip hp | join hp => exact h _ _ hp
    | embedDone => exact absurd hp' (afterEmbed_ne nofun nofun)
    | submitEmpty | submitFull | submitChecked | sendFull | enqueue | cancel | close =>
      exact h _ _ hp'
    | _ => cases hp'

/-! ### The batcher refines the queue -/

theorem current_afterEmbed {counts replies : List ℕ} {total : ℕ} {o : EmbedOutcome V} :
    (afterEmbed counts replies total o).current = [] := by
  rcases afterEmbed_eq counts replies total o with ⟨msg, h⟩ | ⟨vecs, -, -, h⟩ <;> rw [h] <;> rfl

private theorem erase_middle {l₁ l₂ : List Item} {x : Item} (h : (l₁ ++ x :: l₂).Nodup) :
    (l₁ ++ x :: l₂).erase x = l₁ ++ l₂ := by
  have hx : x ∉ l₁ := fun hx => List.disjoint_of_nodup_append h hx List.mem_cons_self
  rw [List.erase_append_right _ hx, List.erase_cons_head]

omit [RatioArith F] in
/-- Leaving out a waiting item withdraws it from the queue. -/
private theorem fifo_withdraw (hq : s.fifo.Conserved) (l₁ l₂ : List Item) {item : Item}
    (hw : s.waiting = l₁ ++ item :: l₂) (hacc : s'.accepted = s.accepted)
    (hskip : s'.skipped = s.skipped ++ [item]) (hw' : s'.waiting = l₁ ++ l₂)
    (hd : s'.dispatched = s.dispatched) :
    Fifo.step s.fifo (.withdraw item) = some s'.fifo := by
  have hnodup : (l₁ ++ item :: l₂).Nodup := hw ▸ (List.nodup_append.mp hq.nodup_order).2.1
  have hmem : item ∈ l₁ ++ item :: l₂ := List.mem_append_right _ List.mem_cons_self
  simp only [Fifo.step, State.fifo, hw, if_pos hmem, hw', erase_middle hnodup, hacc, hskip, hd]

/-- **Step lemma.** A step of the batcher changes its queue not at all or by one step of the
queue. -/
theorem fifo_step (hs : (machine V cfg).Reachable C s) (hq : s.fifo.Conserved)
    (hstep : step cfg s a = some s') :
    s'.fifo = s.fifo ∨ ∃ b, Fifo.step s.fifo b = some s'.fifo := by
  cases trans_of_step hstep with
  | takeCarry hp hc =>
    left
    simp [State.fifo, State.waiting, Phase.current, hp, hc]
  | takeFirst hp hc hq' =>
    left
    simp [State.fifo, State.waiting, Phase.current, hp, hc, hq']
  | stop hp | restart hp =>
    left
    simp [State.fifo, State.waiting, Phase.current, hp]
  | saturate hp | drained hp | deadline hp =>
    left
    simp [State.fifo, State.waiting, Phase.current, hp]
  | @skip accum batch item rest hp _ hq' =>
    right
    have hcarry := carry_eq_none_of_fill hs hp
    refine ⟨.withdraw item, fifo_withdraw hq batch rest ?_ rfl rfl ?_ rfl⟩ <;>
      simp [State.waiting, Phase.current, hp, hcarry, hq']
  | defer hp _ hq' | join hp _ hq' =>
    left
    have hcarry := carry_eq_none_of_fill hs hp
    simp [State.fifo, State.waiting, Phase.current, hp, hcarry, hq']
  | @drop kept item todo hp =>
    right
    refine ⟨.withdraw item, fifo_withdraw hq kept
      (todo ++ s.carry.toList ++ s.channel) ?_ rfl rfl ?_ rfl⟩ <;>
      simp [State.waiting, Phase.current, hp]
  | keep hp =>
    left
    simp [State.fifo, State.waiting, Phase.current, hp]
  | @dispatch kept hp =>
    right
    refine ⟨.take kept.length, ?_⟩
    simp [Fifo.step, State.fifo, State.waiting, Phase.current, hp]
  | sendOk hp | drainPanic hp | scattered hp | sendErr hp | fanned hp =>
    left
    simp [State.fifo, State.waiting, Phase.current, hp]
  | embedDone o hp =>
    left
    simp only [State.fifo, State.waiting, current_afterEmbed, hp]
    rfl
  | @enqueue item hi =>
    right
    refine ⟨.accept item, ?_⟩
    have hnew := (numbered_of_reachable hs).notMem_accepted hi
    simp [Fifo.step, State.fifo, State.waiting, hnew]
  | submitEmpty | submitFull | submitChecked | sendFull | cancel | close => exact .inl rfl

/-- The batcher refines the queue. -/
def refinement (cfg : BatcherConfig F) (C : State V → Action V → Prop) :
    Machine.Simulation (machine V cfg) C (Fifo.machine Item) fun _ _ => True where
  Rel s q := q = s.fifo
  init := by
    rintro _ ⟨-, rfl⟩
    exact ⟨_, rfl, rfl⟩
  step := by
    rintro s a s' _ hs hq rfl - hstep
    rcases fifo_step hs (Fifo.reachable_conserved hq) hstep with h | ⟨b, hb⟩
    · exact .inl h.symm
    · exact .inr ⟨b, _, trivial, hb, rfl⟩

theorem fifo_conserved (hs : (machine V cfg).Reachable C s) : s.fifo.Conserved := by
  obtain ⟨_, hq, rfl⟩ := (refinement cfg C).reachable hs
  exact Fifo.reachable_conserved hq

/-! ### The batches begun so far -/

section Batches

omit [RatioArith F]

theorem batches_of_fill {accum : BatchAccum} {batch : List Item}
    (hp : s.phase = .fill accum batch) : s.batches = s.formed ++ [batch] := by
  rw [State.batches, hp]

theorem batches_of_not_fill (hp : ∀ accum batch, s.phase ≠ .fill accum batch) :
    s.batches = s.formed := by
  rw [State.batches]
  split
  · exact absurd ‹_› (hp _ _)
  · exact List.append_nil _

end Batches

/-- What a step does to the batches begun so far, the carry slot and the deferred items. -/
inductive BatchStep (cfg : BatcherConfig F) (s s' : State V) : Prop
  /-- Nothing. -/
  | same (hb : s'.batches = s.batches) (hc : s'.carry = s.carry) (hd : s'.deferred = s.deferred)
  /-- A batch begins, with the carried item if there is one. -/
  | begin (first : Item) (hb : s'.batches = s.batches ++ [[first]])
      (hc : ∀ c, s.carry = some c → c = first) (hc' : s'.carry = none)
      (hd : s'.deferred = s.deferred)
  /-- An item joins the batch in the fill loop. -/
  | join (accum : BatchAccum) (batch : List Item) (item : Item)
      (hp : s.phase = .fill accum batch)
      (hp' : s'.phase = .fill (accum.push item) (batch ++ [item]))
      (hs : accum.saturated cfg = false) (ho : accum.overflows cfg item = false)
      (hb : s'.batches = s.formed ++ [batch ++ [item]]) (hc : s'.carry = s.carry)
      (hd : s'.deferred = s.deferred)
  /-- The first item of the channel moves to the carry slot. -/
  | defer (accum : BatchAccum) (batch : List Item) (item : Item) (hp : s.phase = .fill accum batch)
      (hq : s.channel = item :: s'.channel) (hb : s'.batches = s.batches)
      (hc : s'.carry = some item) (hd : s'.deferred = s.deferred ++ [(item, s.formed.length)])

theorem batchStep_of_step (hstep : step cfg s a = some s') : BatchStep cfg s s' := by
  cases trans_of_step hstep with
  | @takeCarry c hp hc =>
    refine .begin c ?_ (fun _ hc' => Option.some.inj (hc'.symm.trans hc)) rfl rfl
    rw [batches_of_not_fill (s := s) (by simp [hp])]
    rfl
  | @takeFirst i rest hp hc =>
    refine .begin i ?_ (fun _ hc' => absurd (hc'.symm.trans hc) nofun) hc rfl
    rw [batches_of_not_fill (s := s) (by simp [hp])]
    rfl
  | saturate hp | drained hp | deadline hp =>
    refine .same ?_ rfl rfl
    rw [batches_of_fill hp, batches_of_not_fill (by simp)]
    rfl
  | skip hp =>
    refine .same ?_ rfl rfl
    rw [batches_of_fill hp]
    exact batches_of_fill hp
  | join hp hs _ _ ho => exact .join _ _ _ hp rfl hs ho (batches_of_fill rfl) rfl rfl
  | defer hp _ hq =>
    refine .defer _ _ _ hp hq ?_ rfl rfl
    rw [batches_of_fill hp, batches_of_not_fill (by simp)]
    rfl
  | embedDone o hp =>
    refine .same ?_ rfl rfl
    rw [batches_of_not_fill (s := s) (by simp [hp])]
    exact batches_of_not_fill fun _ _ => afterEmbed_ne nofun nofun
  | stop hp | drop hp | keep hp | restart hp | dispatch hp | sendOk hp | drainPanic hp
  | scattered hp | sendErr hp | fanned hp =>
    refine .same ?_ rfl rfl
    rw [batches_of_not_fill (s := s) (by simp [hp])]
    exact batches_of_not_fill (by simp)
  | submitEmpty | submitFull | submitChecked | sendFull | enqueue | cancel | close =>
    exact .same rfl rfl rfl

/-! ### Deferred items -/

/-- The item deferred from a batch waits in the carry slot until the next batch begins with it. -/
def DeferredNext (s : State V) : Prop :=
  ∀ p ∈ s.deferred, (s.carry = some p.1 ∧ s.batches.length = p.2 + 1) ∨
    ∃ batch, s.batches[p.2 + 1]? = some batch ∧ batch.head? = some p.1

theorem deferredNext_of_reachable (hs : (machine V cfg).Reachable C s) : DeferredNext s := by
  refine hs.invariant_of_reachable (P := DeferredNext) ?_ ?_
  · rintro _ ⟨-, rfl⟩ p hp
    cases hp
  · rintro s a s' hr h - hstep p hp
    cases batchStep_of_step hstep with
    | same hb hc hd =>
      rw [hb, hc]
      exact h p (hd ▸ hp)
    | begin first hb hc _ hd =>
      refine .inr ?_
      rw [hb]
      rcases h p (hd ▸ hp) with ⟨hcarry, hlen⟩ | ⟨batch, hbatch, hhead⟩
      · refine ⟨[first], ?_, ?_⟩
        · rw [← hlen, List.getElem?_append_right (Nat.le_refl _), Nat.sub_self]
          rfl
        · rw [hc _ hcarry]
          rfl
      · have hlt : p.2 + 1 < s.batches.length := (List.getElem?_eq_some_iff.mp hbatch).1
        exact ⟨batch, by rwa [List.getElem?_append_left hlt], hhead⟩
    | join accum batch item hp' _ _ _ hb hc hd =>
      rw [hb, hc]
      have hold := h p (hd ▸ hp)
      rw [batches_of_fill hp'] at hold
      rcases hold with ⟨hcarry, hlen⟩ | ⟨b, hbatch, hhead⟩
      · exact .inl ⟨hcarry, by simpa using hlen⟩
      · refine .inr ?_
        rcases Nat.lt_or_ge (p.2 + 1) s.formed.length with hlt | hge
        · rw [List.getElem?_append_left hlt] at hbatch ⊢
          exact ⟨b, hbatch, hhead⟩
        · -- the batch that began with the deferred item is the one that grows
          rw [List.getElem?_append_right hge, List.getElem?_singleton] at hbatch ⊢
          split at hbatch <;> cases hbatch
          rename_i h0
          refine ⟨batch ++ [item], if_pos h0, ?_⟩
          rw [List.head?_append, hhead]
          rfl
    | defer accum batch item hp' hq hb hc hd =>
      have hcarry := carry_eq_none_of_fill hr hp'
      rw [hb, hc]
      rw [hd, List.mem_append, List.mem_singleton] at hp
      rcases hp with hp | rfl
      · rcases h p hp with ⟨hcarry', -⟩ | hbatch
        · exact absurd (hcarry'.symm.trans hcarry) nofun
        · exact .inr hbatch
      · refine .inl ⟨rfl, ?_⟩
        rw [batches_of_fill hp', List.length_append]
        rfl

/-- The deferred items are accepted items that have left the channel, each deferred once. -/
structure DeferredOnce (s : State V) : Prop where
  mem : ∀ item ∈ s.deferred.map Prod.fst, item ∈ s.accepted ∧ item ∉ s.channel
  nodup : (s.deferred.map Prod.fst).Nodup

theorem deferredOnce_of_reachable (hs : (machine V cfg).Reachable C s) : DeferredOnce s := by
  refine hs.invariant_of_reachable (P := DeferredOnce) ?_ ?_
  · rintro _ ⟨-, rfl⟩
    exact ⟨fun item hi => by simp [start] at hi, List.nodup_nil⟩
  · rintro s a s' hr h - hstep
    have hnodup := (List.nodup_append.mp (fifo_conserved hr).nodup_order).2.1
    have hchannel : s.channel.Nodup := (List.nodup_append.mp hnodup).2.1
    have hleave {i : Item} {rest : List Item} (hq : s.channel = i :: rest) :
        ∀ item ∈ s.deferred.map Prod.fst, item ∈ s.accepted ∧ item ∉ rest := fun item hi =>
      ⟨(h.mem item hi).1, fun hm => (h.mem item hi).2 (hq ▸ List.mem_cons_of_mem i hm)⟩
    cases trans_of_step hstep with
    | takeFirst _ _ hq | skip _ _ hq | join _ _ hq => exact ⟨hleave hq, h.nodup⟩
    | @defer accum batch item rest _ _ hq =>
      have hitem : item ∈ s.channel := hq ▸ List.mem_cons_self
      have haccepted : item ∈ s.accepted :=
        ((fifo_conserved hr).mem_waiting (List.mem_append_right _ hitem)).1
      have hrest : item ∉ rest := (List.nodup_cons.mp (hq ▸ hchannel)).1
      constructor
      · intro x hx
        simp only [State.leaveFill_deferred, State.defer_deferred, List.map_append,
          List.mem_append] at hx
        rcases hx with hx | hx
        · exact hleave hq x hx
        · obtain rfl : x = item := by simpa using hx
          exact ⟨haccepted, hrest⟩
      · simp only [State.leaveFill_deferred, State.defer_deferred, List.map_append]
        refine List.nodup_append.mpr ⟨h.nodup, List.nodup_singleton _, ?_⟩
        rintro x hx y hy rfl
        obtain rfl : x = item := by simpa using hy
        exact (h.mem x hx).2 hitem
    | @enqueue item hi =>
      refine ⟨fun x hx => ⟨List.mem_append_left _ (h.mem x hx).1, ?_⟩, h.nodup⟩
      intro hm
      rcases List.mem_append.mp hm with hm | hm
      · exact (h.mem x hx).2 hm
      · obtain rfl := List.mem_singleton.mp hm
        exact (numbered_of_reachable hr).notMem_accepted hi (h.mem x hx).1
    | _ => exact ⟨h.mem, h.nodup⟩

/-- Only cancelled items are left out. -/
theorem skipped_cancelled (hs : (machine V cfg).Reachable C s) :
    ∀ item ∈ s.skipped, item.reply ∈ s.cancelled := by
  refine hs.invariant (P := fun s => ∀ item ∈ s.skipped, item.reply ∈ s.cancelled) ?_ ?_
  · rintro _ ⟨-, rfl⟩ item hi
    cases hi
  · rintro s a s' h - hstep item hi
    cases trans_of_step hstep with
    | skip _ _ _ hc | drop _ hc =>
      rcases List.mem_append.mp hi with hi | hi
      · exact h item hi
      · rw [List.mem_singleton.mp hi]
        exact of_decide_eq_true hc
    | cancel => exact List.mem_cons_of_mem _ (h item hi)
    | _ => exact h item hi

/-! ### Conservation -/

/-- Conservation and first-in first-out order of the batcher. -/
structure Conserved (s : State V) : Prop where
  /-- The dispatched items, the current batch, the carried item and the channel are the accepted
  requests in order, once the items left out are erased. -/
  order : (s.dispatched.flatten ++ s.phase.current ++ s.carry.toList ++ s.channel).filter
    (· ∉ s.skipped) = s.accepted.filter (· ∉ s.skipped)
  /-- No accepted request is lost or duplicated. -/
  perm : (s.dispatched.flatten ++ s.phase.current ++ s.carry.toList ++ s.channel ++
    s.skipped).Perm s.accepted
  accepted_nodup : (s.accepted.map Item.reply).Nodup
  skipped_cancelled : ∀ item ∈ s.skipped, item.reply ∈ s.cancelled
  /-- A deferred item waits in the carry slot until the very next batch begins with it. -/
  deferred_next : DeferredNext s
  /-- No item is deferred more than once. -/
  deferred_once : (s.deferred.map Prod.fst).Nodup

/-- **Conservation and order.** Under every configuration and on every schedule, no accepted
request is lost, duplicated or reordered, and a deferred item begins the very next batch. -/
theorem conserved_of_reachable (cfg : BatcherConfig F)
    (hs : (machine V cfg).Reachable (fun _ _ => True) s) : Conserved s where
  order := by
    have horder := (fifo_conserved hs).order_filter
    simpa only [State.fifo, State.waiting, List.append_assoc] using horder
  perm := by
    have hperm := (fifo_conserved hs).perm
    simpa only [State.fifo, State.waiting, List.append_assoc] using hperm
  accepted_nodup := (numbered_of_reachable hs).nodup_accepted
  skipped_cancelled := skipped_cancelled hs
  deferred_next := deferredNext_of_reachable hs
  deferred_once := (deferredOnce_of_reachable hs).nodup

/-- A batcher for a padded model with two texts a batch. -/
def pairConfig : BatcherConfig ℚ where
  name := "embed"
  maxQueue := 10
  maxBatchTokens := 64
  maxBatchItems := 2
  maxBatchSeq := 8
  paddedModel := true
  lengthRatioThreshold := 0

/-- The item of a request with a first text. -/
def Item.ofTexts (reply : ℕ) (first : List UInt32) (rest : List (List UInt32)) : Item :=
  ⟨reply, first :: rest, List.cons_ne_nil first rest⟩

/-- A request of two texts is deferred past a request of one text, and a third request is
cancelled in the fill loop. -/
theorem conserved_deferCancel :
    ∃ s, (machine ℕ pairConfig).Reachable (fun _ _ => True) s ∧
      s.dispatched.map (·.map Item.reply) = [[0], [1]] ∧ s.skipped.map Item.reply = [2] ∧
      s.deferred.map (fun p => (p.1.reply, p.2)) = [(1, 0)] ∧ Conserved s := by
  obtain ⟨s, hs, hd, hk, hf⟩ :
      ∃ s ∈ (machine ℕ pairConfig).runUnder (fun _ _ => True) start
        [.submit [[1]], .submit [[2], [3]], .submit [[4]],
          .trySend ⟨0, [[1]], by decide⟩, .trySend ⟨1, [[2], [3]], by decide⟩,
          .trySend ⟨2, [[4]], by decide⟩,
          .worker, .worker, .worker, .worker, .embedDone (.ok [10]), .worker, .worker,
          .worker, .worker, .worker, .worker, .embedDone (.err "out of memory"), .worker, .worker,
          .worker, .cancel 2, .deadline, .worker],
        s.dispatched.map (·.map Item.reply) = [[0], [1]] ∧ s.skipped.map Item.reply = [2] ∧
          s.deferred.map (fun p => (p.1.reply, p.2)) = [(1, 0)] := by
    decide
  have hreach : (machine ℕ pairConfig).Reachable (fun _ _ => True) s :=
    .of_runUnder ⟨by decide, rfl⟩ hs
  exact ⟨s, hreach, hd, hk, hf, conserved_of_reachable pairConfig hreach⟩

end OxEmbed.Batcher

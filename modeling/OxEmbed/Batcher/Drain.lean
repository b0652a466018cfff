import OxEmbed.Batcher.Transparency
import OxEmbed.Library.Termination

/-!
# The shutdown of the batcher

Once the sender is dropped nothing enters the channel, and the worker finishes what is left: every
step takes an item out of the channel, moves one on inside its batch, sends a reply, or goes to the
next phase. `State.work` counts these steps, so the worker stops when every call of `embed_fn`
returns. Then every accepted request was dispatched and answered, or was cancelled and left out.

When the worker does not stop in time, `DynamicBatcher::shutdown` aborts it at the await it is in.
That drops its batch, its carry slot and the receiver of the channel, with the sender of every
reply that was not sent, and the calls that wait for these replies return `BatchError::Shutdown`.

## Main definitions

* `State.work` : the variant of the worker.
* `Phase.awaiting`, `State.senders` : the reply channels whose senders are still held.
* `Shutdown`, `shutdownMachine` : the batcher with the abort of its worker.
* `Shutdown.results` : what the call that waits on a reply channel returns.

## Main results

* `variant` : a closed batcher makes only finitely many steps.
* `sending_of_reachable` : every sender is used, held, or dropped with a cancelled request.
* `graceful_drain` : the worker stops, and every request is answered.
-/

namespace OxEmbed.Batcher

variable {F V : Type}

/-! ### The worker stops -/

/-- The worker moves: a step of its own, the end of its timer, or the return of `embed_fn`. -/
def Action.advances : Action V → Bool
  | .worker | .deadline | .embedDone _ => true
  | .submit _ | .trySend _ | .cancel _ | .close => false

/-- A bound on the steps of the worker up to the next batch. -/
def Phase.work : Phase V → ℕ
  | .recvFirst => 1
  | .fill _ batch => 2 * batch.length + 5
  | .retain kept todo => kept.length + 2 * todo.length + 4
  | .infer _ replies _ => replies.length + 3
  | .scatter todo _ => todo.length + 2
  | .fanErr replies _ => replies.length + 2
  | .stopped | .panicked => 0

/-- A bound on the steps of the worker of a closed batcher. An item costs seven steps: it is taken
from the channel or the carry slot, filtered and answered, and so is its batch. -/
def State.work (s : State V) : ℕ :=
  s.phase.work + 7 * (s.carry.toList.length + s.channel.length) + 8 * s.checked.length

theorem work_afterEmbed_lt (counts replies : List ℕ) (total : ℕ) (o : EmbedOutcome V) :
    (afterEmbed counts replies total o).work < replies.length + 3 := by
  rcases afterEmbed_eq counts replies total o with ⟨msg, h⟩ | ⟨vecs, -, -, h⟩ <;> rw [h]
  · exact Nat.lt_succ_self _
  · simp only [Phase.work, List.length_zip]
    omega

variable [RatioArith F] {cfg : BatcherConfig F} {s s' : State V} {a : Action V}
  {C : State V → Action V → Prop}

theorem work_lt (hstep : step cfg s a = some s') (ha : a.advances = true) : s'.work < s.work := by
  cases trans_of_step hstep with
  | takeCarry hp hc => simp [State.work, Phase.work, hp, hc]; omega
  | takeFirst hp hc hq => simp [State.work, Phase.work, hp, hc, hq]; omega
  | skip hp _ hq | defer hp _ hq | join hp _ hq =>
    simp [State.work, Phase.work, hp, hq]
    try omega
  | @embedDone counts replies ids o hp =>
    have h := work_afterEmbed_lt counts replies ids.length o
    simp only [State.work, hp]
    exact Nat.add_lt_add_right (Nat.add_lt_add_right h _) _
  | submitEmpty | submitFull | submitChecked | sendFull | enqueue | cancel | close => cases ha
  | stop hp | saturate hp | drained hp | drop hp | keep hp | restart hp | dispatch hp | sendOk hp
  | drainPanic hp | scattered hp | sendErr hp | fanned hp | deadline hp =>
    simp [State.work, Phase.work, hp]
    try omega

/-- Once the sender is dropped, no step adds to the work of the worker. -/
theorem work_le (hcl : s.closed = true) (hstep : step cfg s a = some s') : s'.work ≤ s.work := by
  by_cases ha : a.advances = true
  · exact (work_lt hstep ha).le
  cases trans_of_step hstep with
  | submitEmpty h | submitFull h | submitChecked h => exact absurd (h.symm.trans hcl) nofun
  | sendFull hi | enqueue hi =>
    have hlength := List.length_erase_of_mem hi
    have hpos := List.length_pos_of_mem hi
    simp only [State.work, State.refuse, List.length_append, List.length_singleton]
    omega
  | cancel | close => exact Nat.le_refl _
  | _ => exact absurd rfl ha

theorem closed_step (hcl : s.closed = true) (hstep : step cfg s a = some s') :
    s'.closed = true := by
  cases trans_of_step hstep with
  | close => rfl
  | _ => exact hcl

/-- **Variant.** Once the sender is dropped, the worker moves only finitely often. -/
theorem variant (cfg : BatcherConfig F) (C : State V → Action V → Prop) :
    (machine V cfg).Variant C (fun s => s.closed = true) Action.advances State.work where
  invariant hcl _ hstep := closed_step hcl hstep
  le hcl _ hstep := work_le hcl hstep
  lt _ _ ha hstep := work_lt hstep ha

/-- Once the sender is dropped, the worker waits for nothing but `embed_fn`. -/
theorem exists_step_of_closed (hcl : s.closed = true) (ho : s.phase.Over = false) :
    (∃ counts replies ids, s.phase = .infer counts replies ids ∧
      ∀ o, ∃ s', (machine V cfg).step s (.embedDone o) = some s') ∨
    ∃ s', (machine V cfg).step s .worker = some s' := by
  have hworker {p : Phase V} (hp : s.phase = p)
      (h : ∃ s', workerStep cfg { s with phase := p } = some s') :
      ∃ s', (machine V cfg).step s .worker = some s' := by
    subst hp
    exact h
  cases hp : s.phase with
  | recvFirst =>
    refine .inr (hworker hp ?_)
    cases s.carry with
    | some c => simp [workerStep]
    | none => cases s.channel <;> simp [workerStep, hcl]
  | fill accum batch =>
    refine .inr (hworker hp ?_)
    by_cases hsat : accum.saturated cfg = true
    · simp [workerStep, hsat]
    · cases s.channel with
      | nil => simp [workerStep, hsat, hcl]
      | cons item rest =>
        by_cases hc : item.reply ∈ s.cancelled <;>
          by_cases ho : accum.overflows cfg item = true <;>
          simp [workerStep, hsat, State.isClosed, hc, ho]
  | retain kept todo =>
    refine .inr (hworker hp ?_)
    cases todo with
    | nil => cases kept <;> simp [workerStep]
    | cons item todo =>
      by_cases hc : item.reply ∈ s.cancelled <;> simp [workerStep, State.isClosed, hc]
  | infer counts replies ids =>
    refine .inl ⟨counts, replies, ids, rfl, fun o => ?_⟩
    simp [machine, step, hp]
  | scatter todo vecs =>
    refine .inr (hworker hp ?_)
    cases todo with
    | nil => simp [workerStep]
    | cons p todo => by_cases hn : p.2 ≤ vecs.length <;> simp [workerStep, hn]
  | fanErr replies msg =>
    refine .inr (hworker hp ?_)
    cases replies <;> simp [workerStep]
  | stopped | panicked =>
    rw [hp] at ho
    cases ho

/-! ### The senders of the replies -/

/-- The reply channels of the dispatched batch that the worker has not served. -/
def Phase.awaiting : Phase V → List ℕ
  | .infer _ replies _ => replies
  | .scatter todo _ => todo.map Prod.fst
  | .fanErr replies _ => replies
  | _ => []

/-- There is a count for each reply channel, and there is a vector for each text. -/
def Phase.Sound : Phase V → Prop
  | .infer counts replies ids => counts.length = replies.length ∧ counts.sum = ids.length
  | .scatter todo vecs => (todo.map Prod.snd).sum ≤ vecs.length
  | .panicked => False
  | _ => True

/-- The reply channels whose senders the worker and the channel hold. -/
def State.senders (s : State V) : List ℕ := s.phase.awaiting ++ s.waiting.map Item.reply

/-- The senders `used` are spent: the reply arrived unless the requester had gone. -/
structure Spent (s : State V) (used : List ℕ) : Prop where
  sublist : (s.replies.map Prod.fst).Sublist used
  live : ∀ r ∈ used, r ∉ s.cancelled → r ∈ s.replies.map Prod.fst

/-- Every reply channel of a dispatched batch was served or waits to be. -/
structure Sending (s : State V) : Prop where
  sound : s.phase.Sound
  served : ∃ used, used ++ s.phase.awaiting = s.dispatched.flatten.map Item.reply ∧ Spent s used

section Spent

omit [RatioArith F]

theorem sound_afterEmbed {counts replies : List ℕ} {total : ℕ} (o : EmbedOutcome V)
    (hlength : counts.length = replies.length) (hsum : counts.sum = total) :
    (afterEmbed counts replies total o).Sound ∧
      (afterEmbed counts replies total o).awaiting = replies := by
  rcases afterEmbed_eq counts replies total o with ⟨msg, h⟩ | ⟨vecs, -, hvecs, h⟩ <;> rw [h]
  · exact ⟨trivial, rfl⟩
  · constructor
    · rw [Phase.Sound, List.map_snd_zip hlength.le, hsum, hvecs]
    · exact List.map_fst_zip hlength.ge

theorem Spent.frame {used : List ℕ} (h : Spent s used) (hr : s'.replies = s.replies)
    (hc : s.cancelled ⊆ s'.cancelled) : Spent s' used :=
  ⟨hr ▸ h.sublist, fun r hu hl => hr ▸ h.live r hu fun hm => hl (hc hm)⟩

theorem Spent.send {used : List ℕ} (h : Spent s used) (r : ℕ) (x : Reply V)
    (hr : s'.replies = if r ∈ s.cancelled then s.replies else s.replies ++ [(r, x)])
    (hc : s'.cancelled = s.cancelled) : Spent s' (used ++ [r]) := by
  constructor
  · rw [hr]
    split
    · exact h.sublist.trans (List.sublist_append_left _ _)
    · rw [List.map_append]
      exact h.sublist.append (List.Sublist.refl _)
  · intro r' hu hl
    rw [hc] at hl
    rw [hr]
    rcases List.mem_append.1 hu with hu | hu
    · split
      · exact h.live r' hu hl
      · rw [List.map_append]
        exact List.mem_append_left _ (h.live r' hu hl)
    · obtain rfl := List.mem_singleton.1 hu
      rw [if_neg hl, List.map_append]
      exact List.mem_append_right _ (List.mem_singleton_self _)

/-- A step that serves no reply channel. -/
theorem Sending.frame (h : Sending s) (hp : s'.phase.Sound)
    (ha : s'.phase.awaiting = s.phase.awaiting) (hd : s'.dispatched = s.dispatched)
    (hr : s'.replies = s.replies) (hc : s.cancelled ⊆ s'.cancelled) : Sending s' := by
  obtain ⟨used, hused, hspent⟩ := h.served
  exact ⟨hp, used, by rw [ha, hd, hused], hspent.frame hr hc⟩

/-- A step that serves the first reply channel. -/
theorem Sending.send (h : Sending s) {r : ℕ} (x : Reply V) (hp : s'.phase.Sound)
    (ha : s.phase.awaiting = r :: s'.phase.awaiting) (hd : s'.dispatched = s.dispatched)
    (hr : s'.replies = if r ∈ s.cancelled then s.replies else s.replies ++ [(r, x)])
    (hc : s'.cancelled = s.cancelled) : Sending s' := by
  obtain ⟨used, hused, hspent⟩ := h.served
  refine ⟨hp, used ++ [r], ?_, hspent.send r x hr hc⟩
  rw [hd, ← hused, ha, List.append_assoc, List.singleton_append]

end Spent

/-- **Step lemma.** Every step keeps account of the reply channels. -/
theorem Sending.step (h : Sending s) (hstep : Batcher.step cfg s a = some s') : Sending s' := by
  have hsound := h.sound
  cases trans_of_step hstep with
  | takeCarry hp | takeFirst hp | stop hp | saturate hp | drained hp | defer hp | join hp
  | drop hp | keep hp | restart hp | deadline hp | scattered hp | fanned hp =>
    exact h.frame trivial (by rw [hp]; rfl) rfl rfl (List.Subset.refl _)
  | skip | submitEmpty | submitFull | submitChecked | sendFull | enqueue | close =>
    exact h.frame hsound rfl rfl rfl (List.Subset.refl _)
  | cancel => exact h.frame hsound rfl rfl rfl (List.subset_cons_self _ _)
  | @dispatch kept hp =>
    obtain ⟨used, hused, hspent⟩ := h.served
    have hnone : s.phase.awaiting = [] := by rw [hp]; rfl
    rw [hnone, List.append_nil] at hused
    refine ⟨⟨?_, (length_texts kept).symm⟩, used, ?_, hspent.frame rfl (List.Subset.refl _)⟩
    · rw [List.length_map, List.length_map]
    · rw [List.flatten_append, List.map_append, ← hused, List.flatten_singleton]
      rfl
  | @embedDone counts replies ids o hp =>
    rw [hp] at hsound
    obtain ⟨hsound', hawaiting⟩ := sound_afterEmbed o hsound.1 hsound.2
    exact h.frame hsound' (by rw [hp]; exact hawaiting) rfl rfl (List.Subset.refl _)
  | @sendOk r n todo vecs hp hn =>
    rw [hp, Phase.Sound, List.map_cons, List.sum_cons] at hsound
    refine h.send (.ok (vecs.take n)) ?_ (by rw [hp]; rfl) rfl rfl rfl
    rw [State.send_phase, Phase.Sound, List.length_drop]
    omega
  | drainPanic hp hn =>
    rw [hp, Phase.Sound, List.map_cons, List.sum_cons] at hsound
    omega
  | @sendErr r rs msg hp => exact h.send (.err msg) trivial (by rw [hp]; rfl) rfl rfl rfl

/-- **Run lemma.** In every reachable state the reply channels are accounted for. -/
theorem sending_of_reachable (hs : (machine V cfg).Reachable C s) : Sending s := by
  refine hs.invariant ?_ fun s a s' h _ hstep => h.step hstep
  rintro _ ⟨-, rfl⟩
  exact ⟨trivial, [], rfl, List.Sublist.refl _, nofun⟩

/-! ### One reply for each request -/

/-- `embed_tokens` returns what it received. -/
def Reply.result : Reply V → Except BatchError (List V)
  | .ok vecs => .ok vecs
  | .err msg => .error (.inference msg)

/-- The senders are spent or held, and no two of them belong to one reply channel. -/
theorem used_append_senders (hs : (machine V cfg).Reachable C s) :
    ∃ used, Spent s used ∧ (used ++ s.senders).Nodup ∧
      ∀ item ∈ s.accepted, item.reply ∉ s.cancelled → item.reply ∈ used ++ s.senders := by
  obtain ⟨used, hused, hspent⟩ := (sending_of_reachable hs).served
  have hall : used ++ s.senders = (s.dispatched.flatten ++ s.waiting).map Item.reply := by
    rw [State.senders, ← List.append_assoc, hused, List.map_append]
  have horder : s.dispatched.flatten ++ s.waiting = s.accepted.filter (· ∉ s.skipped) :=
    (fifo_conserved hs).order
  refine ⟨used, hspent, ?_, fun item hi hlive => ?_⟩ <;> rw [hall, horder]
  · exact (numbered_of_reachable hs).nodup_accepted.sublist (List.filter_sublist.map Item.reply)
  · refine List.mem_map_of_mem (List.mem_filter.2 ⟨hi, decide_eq_true fun hskip => ?_⟩)
    exact hlive (skipped_cancelled hs item hskip)

section Count

omit [RatioArith F]

theorem length_repliesTo (s : State V) (r : ℕ) :
    (s.repliesTo r).length = (s.replies.map Prod.fst).count r := by
  rw [State.repliesTo, List.length_map, ← List.countP_eq_length_filter, List.count,
    List.countP_map]
  rfl

end Count

theorem length_repliesTo_le_one (hs : (machine V cfg).Reachable C s) (r : ℕ) :
    (s.repliesTo r).length ≤ 1 := by
  obtain ⟨used, hspent, hnodup, -⟩ := used_append_senders hs
  rw [length_repliesTo]
  exact List.nodup_iff_count_le_one.1 ((List.nodup_append.1 hnodup).1.sublist hspent.sublist) r

/-- No reply arrived where the sender is still held. -/
theorem repliesTo_of_mem_senders (hs : (machine V cfg).Reachable C s) {r : ℕ}
    (hr : r ∈ s.senders) : s.repliesTo r = [] := by
  obtain ⟨used, hspent, hnodup, -⟩ := used_append_senders hs
  rw [← List.length_eq_zero_iff, length_repliesTo, List.count_eq_zero]
  intro hm
  exact List.disjoint_of_nodup_append hnodup (hspent.sublist.subset hm) hr

/-- A live requester has its reply when the sender is no longer held. -/
theorem repliesTo_of_notMem_senders (hs : (machine V cfg).Reachable C s) {item : Item}
    (hi : item ∈ s.accepted) (hlive : item.reply ∉ s.cancelled) (hr : item.reply ∉ s.senders) :
    ∃ x, s.repliesTo item.reply = [x] := by
  obtain ⟨used, hspent, -, hall⟩ := used_append_senders hs
  have hused := (List.mem_append.1 (hall item hi hlive)).resolve_right hr
  have hpos := List.count_pos_iff.2 (hspent.live _ hused hlive)
  have hle := length_repliesTo_le_one hs item.reply
  rw [← length_repliesTo] at hpos
  exact List.length_eq_one_iff.1 (by omega)

theorem nodup_senders (hs : (machine V cfg).Reachable C s) : s.senders.Nodup := by
  obtain ⟨used, -, hnodup, -⟩ := used_append_senders hs
  exact (List.nodup_append.1 hnodup).2.1

/-! ### The graceful end -/

/-- The worker stops only when nothing waits. -/
theorem waiting_of_stopped (hs : (machine V cfg).Reachable C s) :
    s.phase = .stopped → s.waiting = [] := by
  refine hs.invariant (P := fun s => s.phase = .stopped → s.waiting = []) ?_ ?_
  · rintro _ ⟨-, rfl⟩ hp
    cases hp
  · intro s a s' h _ hstep hp'
    cases trans_of_step hstep with
    | stop hp hc hq => simp [State.waiting, Phase.current, hc, hq]
    | skip hp => cases hp.symm.trans hp'
    | embedDone => refine absurd hp' (afterEmbed_ne ?_ ?_) <;> rintro _ _ ⟨⟩
    | enqueue _ ho => cases (congrArg Phase.Over hp').symm.trans ho
    | submitEmpty | submitFull | submitChecked | sendFull | cancel | close => exact h hp'
    | _ => cases hp'

/-- The worker ends with nothing left. -/
theorem senders_of_over (hs : (machine V cfg).Reachable C s) (ho : s.phase.Over = true) :
    s.phase = .stopped ∧ s.waiting = [] ∧ s.senders = [] := by
  have hstopped : s.phase = .stopped := by
    have hsound := (sending_of_reachable hs).sound
    cases hp : s.phase with
    | stopped => rfl
    | panicked =>
      rw [hp] at hsound
      exact hsound.elim
    | _ =>
      rw [hp] at ho
      cases ho
  have hwaiting := waiting_of_stopped hs hstopped
  refine ⟨hstopped, hwaiting, ?_⟩
  rw [State.senders, hstopped, hwaiting]
  rfl

/-- The worker of a batcher terminates when the calls of `embed_fn` return. -/
structure Terminates (cfg : BatcherConfig F) (s : State V) : Prop where
  /-- In no run does the worker move more often than its variant says. -/
  bounded : ∀ as s', (machine V cfg).Path (fun _ _ => True) s as s' →
    as.countP Action.advances ≤ s.work
  /-- While the worker has not ended it waits for nothing but `embed_fn`, however that returns. -/
  progress : ∀ as s', (machine V cfg).Path (fun _ _ => True) s as s' → s'.phase.Over = false →
    (∃ counts replies ids, s'.phase = .infer counts replies ids ∧
      ∀ o, ∃ s'', (machine V cfg).step s' (.embedDone o) = some s'') ∨
    ∃ s'', (machine V cfg).step s' .worker = some s''
  /-- In every infinite run in which the worker moves again and again, it ends. -/
  ends : ∀ st act, (machine V cfg).Run (fun _ _ => True) st act → st 0 = s →
    (∀ n, ∃ m, n ≤ m ∧ ((st m).phase.Over = true ∨ (act m).advances = true)) →
      ∃ n, (st n).phase.Over = true

theorem terminates_of_closed (cfg : BatcherConfig F) (hcl : s.closed = true) :
    Terminates cfg s where
  bounded as s' hp := by
    have h := ((variant cfg _).countP_le hcl hp).2
    omega
  progress as s' hp ho := exists_step_of_closed ((variant cfg _).countP_le hcl hp).1 ho
  ends st act hr h0 hfair := by
    subst h0
    exact (variant cfg _).exists_final hr (fun s => s.phase.Over = true) hcl hfair

/-- The worker has stopped, and every accepted request was dispatched and answered, or its
requester had cancelled it and it was left out. -/
structure Drained (s : State V) : Prop where
  stopped : s.phase = .stopped
  empty : s.waiting = []
  resolved : ∀ item ∈ s.accepted,
    (item ∈ s.dispatched.flatten ∧ item ∉ s.skipped ∧
      (item.reply ∉ s.cancelled → ∃ x, s.repliesTo item.reply = [x])) ∨
    (item ∈ s.skipped ∧ item ∉ s.dispatched.flatten ∧ item.reply ∈ s.cancelled)

theorem drained_of_over (hs : (machine V cfg).Reachable C s) (ho : s.phase.Over = true) :
    Drained s := by
  obtain ⟨hstopped, hwaiting, hsenders⟩ := senders_of_over hs ho
  refine ⟨hstopped, hwaiting, fun item hi => ?_⟩
  have horder : s.dispatched.flatten ++ s.waiting = s.accepted.filter (· ∉ s.skipped) :=
    (fifo_conserved hs).order
  have hmem : item ∈ s.dispatched.flatten ↔ item ∉ s.skipped := by
    rw [hwaiting, List.append_nil] at horder
    rw [horder, List.mem_filter, decide_eq_true_eq, and_iff_right hi]
  by_cases hskip : item ∈ s.skipped
  · exact .inr ⟨hskip, fun h => hmem.1 h hskip, skipped_cancelled hs item hskip⟩
  · refine .inl ⟨hmem.2 hskip, hskip, fun hlive => ?_⟩
    exact repliesTo_of_notMem_senders hs hi hlive (hsenders ▸ List.not_mem_nil)

theorem accepted_mono {as : List (Action V)} (hp : (machine V cfg).Path C s as s') :
    s.accepted ⊆ s'.accepted := by
  induction hp with
  | nil => exact List.Subset.refl _
  | snoc _ _ hstep ih =>
    cases trans_of_step hstep with
    | enqueue => exact List.Subset.trans ih (List.subset_append_left _ _)
    | _ => exact ih

/-! ### The abort of the worker -/

/-- The worker is suspended: in `rx.recv()`, in the timed `rx.recv()` of the fill loop, or awaiting
the embed task. -/
def State.suspended (cfg : BatcherConfig F) (s : State V) : Bool :=
  match s.phase with
  | .recvFirst => s.carry.isNone
  | .fill accum _ => !accum.saturated cfg
  | .infer .. => true
  | _ => false

/-- The batcher after the worker was aborted: its stack and the receiver are gone. -/
@[simps] def State.abort (s : State V) : State V :=
  { s with phase := .stopped, channel := [], carry := none }

/-- A batcher that can be shut down. -/
structure Shutdown (V : Type) where
  batcher : State V
  /-- History: the reply channels whose senders were dropped by the abort. -/
  dropped : List ℕ

/-- The actions of a schedule with a shutdown. -/
inductive ShutdownAction (V : Type)
  | batcher (a : Action V)
  /-- The timeout of `shutdown` fires and the worker is aborted. -/
  | abort

namespace Shutdown

/-- One step. The sender is dropped before the timeout begins. -/
def step (cfg : BatcherConfig F) (t : Shutdown V) : ShutdownAction V → Option (Shutdown V)
  | .batcher a => (Batcher.step cfg t.batcher a).map fun s => { t with batcher := s }
  | .abort =>
    if t.batcher.closed && t.batcher.suspended cfg then
      some ⟨t.batcher.abort, t.dropped ++ t.batcher.senders⟩
    else none

/-- What the call that waits on a reply channel returns: the reply, or `Shutdown` when its sender
was dropped. -/
def results (t : Shutdown V) (r : ℕ) : List (Except BatchError (List V)) :=
  (t.batcher.repliesTo r).map Reply.result ++
    (t.dropped.filter (· = r)).map fun _ => .error .shutdown

end Shutdown

/-- The batcher with its shutdown, as a machine. -/
def shutdownMachine (V : Type) (cfg : BatcherConfig F) :
    Machine (Shutdown V) (ShutdownAction V) where
  Init t := (machine V cfg).Init t.batcher ∧ t.dropped = []
  step := Shutdown.step cfg

/-- What no step changes once the worker was aborted in the state `s`. -/
structure AbortedIn (s b : State V) : Prop where
  phase : b.phase = .stopped
  closed : b.closed = true
  replies : b.replies = s.replies
  accepted : b.accepted = s.accepted
  cancelled : s.cancelled ⊆ b.cancelled

omit [RatioArith F] in
theorem AbortedIn.start (hcl : s.closed = true) : AbortedIn s s.abort :=
  ⟨rfl, hcl, rfl, rfl, List.Subset.refl _⟩

theorem AbortedIn.step {b b' : State V} (h : AbortedIn s b)
    (hstep : Batcher.step cfg b a = some b') : AbortedIn s b' := by
  have hp {p : Phase V} (hp : b.phase = p) : p = .stopped := hp.symm.trans h.phase
  cases trans_of_step hstep with
  | cancel =>
    exact ⟨h.phase, h.closed, h.replies, h.accepted, List.subset_cons_of_subset _ h.cancelled⟩
  | close => exact ⟨h.phase, rfl, h.replies, h.accepted, h.cancelled⟩
  | sendFull => exact ⟨h.phase, h.closed, h.replies, h.accepted, h.cancelled⟩
  | enqueue _ ho => exact absurd ((congrArg Phase.Over h.phase).symm.trans ho) nofun
  | submitEmpty hcl | submitFull hcl | submitChecked hcl =>
    exact absurd (hcl.symm.trans h.closed) nofun
  | _ => cases hp ‹_›

omit [RatioArith F] in
/-- A worker that was aborted is not suspended. -/
theorem AbortedIn.not_suspended {b : State V} (h : AbortedIn s b) : b.suspended cfg = false := by
  rw [State.suspended, h.phase]

/-- The abort drops every sender that is still held. -/
theorem Shutdown.abort_cases {t t' : Shutdown V} (hstep : Shutdown.step cfg t .abort = some t') :
    t.batcher.closed = true ∧ t.batcher.suspended cfg = true ∧ t'.batcher = t.batcher.abort ∧
      t'.dropped = t.dropped ++ t.batcher.senders := by
  rw [Shutdown.step, Option.ite_none_right_eq_some, Bool.and_eq_true] at hstep
  obtain ⟨⟨hcl, hsuspended⟩, heq⟩ := hstep
  obtain rfl := Option.some.inj heq
  exact ⟨hcl, hsuspended, rfl, rfl⟩

/-- A reachable state is one of the batcher, or one after an abort at a suspension point. -/
theorem Shutdown.cases_of_reachable {D : Shutdown V → ShutdownAction V → Prop} {t : Shutdown V}
    (ht : (shutdownMachine V cfg).Reachable D t) :
    (t.dropped = [] ∧ (machine V cfg).Reachable (fun _ _ => True) t.batcher) ∨
    ∃ s, (machine V cfg).Reachable (fun _ _ => True) s ∧ t.dropped = s.senders ∧
      AbortedIn s t.batcher := by
  induction ht with
  | init h => exact .inl ⟨h.2, .init h.1⟩
  | @step t t' a _ _ hstep ih =>
    cases a with
    | batcher a =>
      obtain ⟨b, hb, rfl⟩ := Option.map_eq_some_iff.1 hstep
      rcases ih with ⟨hnone, hs⟩ | ⟨s, hs, hdropped, habort⟩
      · exact .inl ⟨hnone, .step hs trivial hb⟩
      · exact .inr ⟨s, hs, hdropped, habort.step hb⟩
    | abort =>
      obtain ⟨hcl, hsuspended, hb, hdropped'⟩ := Shutdown.abort_cases hstep
      rcases ih with ⟨hnone, hs⟩ | ⟨s, hs, hdropped, habort⟩
      · refine .inr ⟨t.batcher, hs, ?_, hb ▸ .start hcl⟩
        rw [hdropped', hnone, List.nil_append]
      · exact absurd (habort.not_suspended.symm.trans hsuspended) nofun

/-! ### Who waits -/

/-- The result of a call while nothing was dropped. -/
theorem Shutdown.results_of_nil {t : Shutdown V} (h : t.dropped = []) (r : ℕ) :
    t.results r = (t.batcher.repliesTo r).map Reply.result := by
  rw [Shutdown.results, h, List.filter_nil, List.map_nil, List.append_nil]

/-- The calls whose senders were held when the worker was aborted return `Shutdown`. -/
theorem results_of_mem_senders (hs : (machine V cfg).Reachable C s) {t : Shutdown V}
    (hd : t.dropped = s.senders) (hr : t.batcher.replies = s.replies) {r : ℕ}
    (hm : r ∈ s.senders) : t.results r = [.error .shutdown] := by
  have hreplies : t.batcher.repliesTo r = s.repliesTo r := by rw [State.repliesTo, hr]; rfl
  rw [Shutdown.results, hreplies, repliesTo_of_mem_senders hs hm, hd]
  have hfilter : s.senders.filter (· = r) = [r] := by
    have hcount := List.count_eq_one_of_mem (nodup_senders hs) hm
    rw [List.filter_eq, hcount]
    rfl
  rw [hfilter]
  rfl

omit [RatioArith F] in
/-- The other calls return the reply that arrived before. -/
theorem results_of_notMem_senders {t : Shutdown V} (hd : t.dropped = s.senders)
    (hr : t.batcher.replies = s.replies) {r : ℕ} (hm : r ∉ s.senders) :
    t.results r = (s.repliesTo r).map Reply.result := by
  have hreplies : t.batcher.repliesTo r = s.repliesTo r := by rw [State.repliesTo, hr]; rfl
  have hfilter : s.senders.filter (· = r) = [] := by
    rw [List.filter_eq, List.count_eq_zero.2 hm]
    rfl
  rw [Shutdown.results, hreplies, hd, hfilter, List.map_nil, List.append_nil]

/-- Who gets what, whether the worker stops or is aborted. -/
structure Resolves (cfg : BatcherConfig F) (t : Shutdown V) : Prop where
  /-- No call returns twice. -/
  once : ∀ r, (t.results r).length ≤ 1
  /-- Once the sender is dropped, the worker can be aborted wherever it is suspended. -/
  enabled : t.batcher.closed = true → t.batcher.suspended cfg = true →
    ∃ t', (shutdownMachine V cfg).step t .abort = some t'
  /-- An abort resolves the live requests that were not answered with `Shutdown`, and no others. -/
  abort : ∀ t', (shutdownMachine V cfg).step t .abort = some t' →
    ∀ item ∈ t.batcher.accepted, item.reply ∉ t.batcher.cancelled →
      (item.reply ∈ t.batcher.senders ∧ t.results item.reply = [] ∧
        t'.results item.reply = [.error .shutdown]) ∨
      (item.reply ∉ t.batcher.senders ∧ ∃ x, t.results item.reply = [x] ∧
        t'.results item.reply = [x])
  /-- When the worker has ended, no live requester waits. -/
  ended : t.batcher.phase.Over = true → ∀ item ∈ t.batcher.accepted,
    item.reply ∉ t.batcher.cancelled → ∃ x, t.results item.reply = [x]

theorem resolves_of_reachable {t : Shutdown V}
    (ht : (shutdownMachine V cfg).Reachable (fun _ _ => True) t) : Resolves cfg t where
  once r := by
    rcases Shutdown.cases_of_reachable ht with ⟨hnone, hs⟩ | ⟨s, hs, hdropped, habort⟩
    · rw [Shutdown.results_of_nil hnone, List.length_map]
      exact length_repliesTo_le_one hs r
    · by_cases hm : r ∈ s.senders
      · rw [results_of_mem_senders hs hdropped habort.replies hm]
        exact Nat.le_refl _
      · rw [results_of_notMem_senders hdropped habort.replies hm, List.length_map]
        exact length_repliesTo_le_one hs r
  enabled hcl hsuspended := ⟨_, if_pos (by rw [hcl, hsuspended]; rfl)⟩
  abort t' hstep item hi hlive := by
    obtain ⟨-, hsuspended, hb, hdropped'⟩ := Shutdown.abort_cases hstep
    have hreplies : t'.batcher.replies = t.batcher.replies := by rw [hb]; rfl
    rcases Shutdown.cases_of_reachable ht with ⟨hnone, hs⟩ | ⟨s, hs, hdropped, habort⟩
    · rw [hnone, List.nil_append] at hdropped'
      rw [Shutdown.results_of_nil hnone]
      by_cases hm : item.reply ∈ t.batcher.senders
      · refine .inl ⟨hm, ?_, results_of_mem_senders hs hdropped' hreplies hm⟩
        rw [repliesTo_of_mem_senders hs hm, List.map_nil]
      · obtain ⟨x, hx⟩ := repliesTo_of_notMem_senders hs hi hlive hm
        rw [results_of_notMem_senders hdropped' hreplies hm, hx]
        exact .inr ⟨hm, _, rfl, rfl⟩
    · exact absurd (habort.not_suspended.symm.trans hsuspended) nofun
  ended ho item hi hlive := by
    rcases Shutdown.cases_of_reachable ht with ⟨hnone, hs⟩ | ⟨s, hs, hdropped, habort⟩
    · obtain ⟨-, -, hsenders⟩ := senders_of_over hs ho
      obtain ⟨x, hx⟩ := repliesTo_of_notMem_senders hs hi hlive (hsenders ▸ List.not_mem_nil)
      rw [Shutdown.results_of_nil hnone, hx]
      exact ⟨_, rfl⟩
    · by_cases hm : item.reply ∈ s.senders
      · exact ⟨_, results_of_mem_senders hs hdropped habort.replies hm⟩
      · rw [habort.accepted] at hi
        obtain ⟨x, hx⟩ := repliesTo_of_notMem_senders hs hi (fun h => hlive (habort.cancelled h)) hm
        rw [results_of_notMem_senders hdropped habort.replies hm, hx]
        exact ⟨_, rfl⟩

/-- **Graceful drain.** Once the sender is dropped, the worker stops when the calls of `embed_fn`
return, and every accepted request was dispatched and answered once, or cancelled and left out. If
the worker is aborted at a suspension point, the requests that are not answered return `Shutdown`,
each once. -/
theorem graceful_drain (cfg : BatcherConfig F) :
    (∀ s : State V, s.closed = true → Terminates cfg s) ∧
    (∀ s : State V, (machine V cfg).Reachable (fun _ _ => True) s → s.closed = true →
      ∀ as s', (machine V cfg).Path (fun _ _ => True) s as s' → s'.phase.Over = true →
        Drained s' ∧ s.waiting ⊆ s'.accepted) ∧
    ∀ t : Shutdown V, (shutdownMachine V cfg).Reachable (fun _ _ => True) t → Resolves cfg t := by
  refine ⟨fun s => terminates_of_closed cfg, fun s hs _ as s' hp ho => ?_, fun t =>
    resolves_of_reachable⟩
  refine ⟨drained_of_over (hs.path hp) ho, fun item hi => accepted_mono hp ?_⟩
  exact ((fifo_conserved hs).mem_waiting hi).1

/-- After one request is answered the worker is aborted in a call of `embed_fn`, with a request in
the batch, one in the carry slot and one in the channel. -/
def abortedCall : List (ShutdownAction ℕ) :=
  ([.submit [[1]], .submit [[2]], .submit [[3], [4]], .submit [[5]], .trySend ⟨0, [[1]], by decide⟩,
    .worker, .deadline, .worker, .worker, .embedDone (.ok [7]), .worker, .worker,
    .trySend ⟨1, [[2]], by decide⟩, .trySend ⟨2, [[3], [4]], by decide⟩,
    .trySend ⟨3, [[5]], by decide⟩, .worker, .worker, .worker, .worker, .close].map .batcher) ++
  [.abort]

theorem graceful_drain_abort :
    ∃ t, (shutdownMachine ℕ pairConfig).Reachable (fun _ _ => True) t ∧
      t.batcher.phase = .stopped ∧ t.results 0 = [.ok [7]] ∧ t.dropped = [1, 2, 3] ∧
      Resolves pairConfig t ∧ Terminates pairConfig t.batcher := by
  obtain ⟨t, ht, hp, hcl, h0, hd⟩ :
      ∃ t ∈ (shutdownMachine ℕ pairConfig).runUnder (fun _ _ => True) ⟨start, []⟩ abortedCall,
        t.batcher.phase = .stopped ∧ t.batcher.closed = true ∧ t.results 0 = [.ok [7]] ∧
          t.dropped = [1, 2, 3] := by
    decide +kernel
  have hreach : (shutdownMachine ℕ pairConfig).Reachable (fun _ _ => True) t :=
    .of_runUnder ⟨⟨by decide, rfl⟩, rfl⟩ ht
  obtain ⟨hterminates, -, hresolves⟩ := graceful_drain (V := ℕ) pairConfig
  exact ⟨t, hreach, hp, h0, hd, hresolves t hreach, hterminates _ hcl⟩

end OxEmbed.Batcher

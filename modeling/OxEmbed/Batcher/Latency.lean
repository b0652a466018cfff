import OxEmbed.Batcher.Backpressure
import OxEmbed.Batcher.Drain
import OxEmbed.Library.Pacing

/-!
# How long a request waits

The worker fills a batch until its timer elapses, and then waits for `embed_fn`. When `embed_fn`
returns within some time and every step that is due happens within some latency, the worker begins
a batch at least once in each *cycle*. Each batch begins with the first item that waits, so a
request moves up by a place in each cycle, however the items are grouped, deferred or cancelled and
whatever else is sent. The place is bounded by the capacity of the channel.

## Main definitions

* `Timing`, `Stage`, `pacing`, `paced` : how long the stages of the worker last.
* `State.held`, `State.queued`, `State.Place` : the place of a request.
* `cycle`, `remaining` : the time from one batch to the next.
* `AnswersInTime` : every request is answered in time, and time passes.

## Main results

* `place_of_trans` : what a step does to the place of a request.
* `answersInTime` : a request is answered in time, or its requester has gone.
-/

namespace OxEmbed.Batcher

variable {F V : Type}

/-! ### The timed batcher -/

/-- How long the steps of the worker take. -/
structure Timing where
  /-- The timer of the fill loop. -/
  wait : ℕ
  /-- `embed_fn` returns within this time. -/
  inference : ℕ
  /-- What is due happens within this time. -/
  latency : ℕ

/-- Where the worker is, as far as its timing goes. -/
inductive Stage
  /-- In `rx.recv`, with nothing to receive. -/
  | idle
  /-- About to begin a batch, or to stop. -/
  | ready
  | filling
  | filtering
  | inferring
  | sending
  | over
  deriving DecidableEq

def State.stage (s : State V) : Stage :=
  match s.phase with
  | .recvFirst => if s.carry = none ∧ s.channel = [] ∧ s.closed = false then .idle else .ready
  | .fill .. => .filling
  | .retain .. => .filtering
  | .infer .. => .inferring
  | .scatter .. | .fanErr .. => .sending
  | .stopped | .panicked => .over

/-- How long a stage lasts: the timer of the fill loop, the call of `embed_fn`, and the stages that
wait for nothing. When the timer has elapsed, the items that are there are looked at without
another wait. -/
def stay (timing : Timing) : Stage → Option ℕ
  | .idle | .over => none
  | .filling => some (timing.wait + timing.latency)
  | .inferring => some (timing.inference + timing.latency)
  | .ready | .filtering | .sending => some timing.latency

variable [RatioArith F]

/-- The pacing of the worker; producers and requesters act at any time. -/
def pacing (cfg : BatcherConfig F) (timing : Timing) :
    Pacing (Clocked (State V)) (Tick (Action V)) where
  clock := Clocked.clock
  starts c
    | .wait _ => false
    | .act a => (step cfg c.state a).any fun s => s.stage ≠ c.state.stage
  earliest _
    | .act .deadline => timing.wait
    | _ => 0
  latest c := stay timing c.state.stage

/-- The batcher, as a timed machine. -/
def paced (V : Type) (cfg : BatcherConfig F) (timing : Timing) :
    Machine (Paced (Clocked (State V))) (Tick (Action V)) :=
  (pacing cfg timing).machine (machine V cfg).clocked

variable {cfg : BatcherConfig F} {timing : Timing} {s s' : State V} {a : Action V}
  {t t' : Paced (Clocked (State V))} {b : Tick (Action V)} {bs : List (Tick (Action V))}
  {D : Paced (Clocked (State V)) → Tick (Action V) → Prop} {r k k' : ℕ}

theorem reachable_of_paced (ht : (paced V cfg timing).Reachable D t) :
    (machine V cfg).Reachable (fun _ _ => True) t.state.state :=
  Machine.reachable_of_clocked (Pacing.reachable (C := fun _ _ => True)
    (ht.strengthen fun _ _ _ _ _ _ => trivial))

theorem inTime_of_paced (ht : (paced V cfg timing).Reachable D t) :
    ∀ d ∈ stay timing t.state.state.stage, t.state.clock ≤ t.since + d :=
  Pacing.inTime_of_reachable ht

theorem since_le_clock (ht : (paced V cfg timing).Reachable D t) : t.since ≤ t.state.clock :=
  Pacing.since_le_of_reachable (fun _ _ _ h => Machine.clock_le_of_clocked h) ht

/-- What a step of the timed batcher can do: some time passes, or the batcher makes a step in no
time. -/
theorem paced_cases (h : (paced V cfg timing).step t b = some t') :
    (t'.state.state = t.state.state ∧ t'.since = t.since) ∨
      ∃ a, b = .act a ∧ step cfg t.state.state a = some t'.state.state ∧
        t'.state.clock = t.state.clock ∧
        t'.since = if t'.state.state.stage ≠ t.state.state.stage then t.state.clock
          else t.since := by
  obtain ⟨-, c, hc, rfl, -⟩ := Pacing.step_eq_some_iff.1 h
  cases b with
  | wait d =>
    obtain rfl := Option.some.inj hc
    exact .inl ⟨rfl, rfl⟩
  | act a =>
    obtain ⟨s, hs, rfl⟩ := Machine.clocked_act_eq_some_iff.1 hc
    have hstep : step cfg t.state.state a = some s := hs
    refine .inr ⟨a, rfl, hstep, rfl, ?_⟩
    simp only [Pacing.next, pacing, hstep, Option.any_some, decide_eq_true_eq]

/-- A step that takes no time is in time. -/
theorem paced_act (ht : (paced V cfg timing).Reachable D t)
    (hready : t.since + (pacing (V := V) cfg timing).earliest t.state (.act a) ≤ t.state.clock)
    (hstep : step cfg t.state.state a = some s) :
    ((paced V cfg timing).step t (.act a)).isSome = true := by
  have hc : (machine V cfg).clocked.step t.state (.act a) = some ⟨s, t.state.clock⟩ :=
    Machine.clocked_act_eq_some_iff.2 ⟨s, hstep, rfl⟩
  refine Option.isSome_iff_exists.2
    ⟨_, Pacing.step_eq_some_iff.2 ⟨hready, _, hc, rfl, fun d hd => ?_⟩⟩
  simp only [Pacing.next, pacing, hstep, Option.any_some, decide_eq_true_eq]
  split
  · exact Nat.le_add_right _ d
  next hstage =>
    refine inTime_of_paced ht d ?_
    rw [← not_not.1 hstage]
    exact hd

/-! ### The place of a request -/

/-- The reply channels of the batch that the worker is building or serving. -/
def State.held (s : State V) : List ℕ := s.phase.awaiting ++ s.phase.current.map Item.reply

/-- The reply channels of the items that no batch has begun with. -/
def State.queued (s : State V) : List ℕ := (s.carry.toList ++ s.channel).map Item.reply

/-- The request is in the current batch, or its batch begins after at most `k` others. -/
inductive State.Place (s : State V) (r : ℕ) : ℕ → Prop
  | held (h : r ∈ s.held) : Place s r 0
  | queued {k : ℕ} (h : s.queued[k]? = some r) : Place s r (k + 1)

section Place

omit [RatioArith F]

theorem held_append_queued (s : State V) : s.held ++ s.queued = s.senders := by
  rw [State.held, State.queued, State.senders, State.waiting, List.append_assoc, ← List.map_append,
    List.append_assoc]

theorem mem_senders_of_place (h : s.Place r k) : r ∈ s.senders := by
  rw [← held_append_queued]
  cases h with
  | held h => exact List.mem_append_left _ h
  | queued h => exact List.mem_append_right _ (List.mem_of_getElem? h)

theorem exists_place (h : r ∈ s.senders) : ∃ k ≤ s.queued.length, s.Place r k := by
  rw [← held_append_queued] at h
  rcases List.mem_append.1 h with hheld | hqueued
  · exact ⟨0, Nat.zero_le _, .held hheld⟩
  · obtain ⟨k, hk, rfl⟩ := List.mem_iff_getElem.1 hqueued
    exact ⟨k + 1, hk, .queued (List.getElem?_eq_getElem hk)⟩

/-- A step that keeps the batch and the queue, but for what is added at its end. -/
theorem State.Place.frame (h : s.Place r k) (hheld : s'.held = s.held)
    (hqueued : s.queued <+: s'.queued) : s'.Place r k := by
  cases h with
  | held h => exact .held (hheld ▸ h)
  | queued h =>
    obtain ⟨added, hadded⟩ := hqueued
    refine .queued ?_
    rw [← hadded, List.getElem?_append_left (List.getElem?_eq_some_iff.1 h).1, h]

/-- The first item of the queue joins the batch. -/
theorem State.Place.join (r₀ : ℕ) (h : s.Place r k) (hheld : s'.held = s.held ++ [r₀])
    (hqueued : s.queued = r₀ :: s'.queued) : ∃ k' ≤ k, s'.Place r k' := by
  cases h with
  | held h => exact ⟨0, Nat.le_refl _, .held (hheld ▸ List.mem_append_left _ h)⟩
  | @queued j h =>
    rw [hqueued] at h
    cases j with
    | zero =>
      obtain rfl := Option.some.inj h
      exact ⟨0, Nat.zero_le _, .held (hheld ▸ List.mem_append_right _ (List.mem_singleton_self _))⟩
    | succ j => exact ⟨j + 1, Nat.le_succ _, .queued h⟩

/-- The sender of a request is dropped, or used; those of the others are not. -/
theorem State.Place.leave (r₀ : ℕ) (h : s.Place r k) (hnodup : s.senders.Nodup)
    (hheld : s.held.Perm (r₀ :: s'.held)) (hqueued : s'.queued = s.queued) :
    r ∉ s'.senders ∨ s'.Place r k := by
  cases h with
  | queued h => exact .inr (.queued (hqueued ▸ h))
  | held h =>
    rcases List.mem_cons.1 (hheld.mem_iff.1 h) with rfl | hmem
    · refine .inl ?_
      rw [← held_append_queued] at hnodup ⊢
      rw [hqueued]
      exact (List.nodup_cons.1 ((hheld.append_right _).nodup_iff.1 hnodup)).1
    · exact .inr (.held hmem)

/-- The first item of the queue is left out. -/
theorem State.Place.skip (r₀ : ℕ) (h : s.Place r k) (hnodup : s.senders.Nodup)
    (hheld : s'.held = s.held) (hqueued : s.queued = r₀ :: s'.queued) :
    r ∉ s'.senders ∨ ∃ k' ≤ k, s'.Place r k' := by
  cases h with
  | held h => exact .inr ⟨0, Nat.le_refl _, .held (hheld ▸ h)⟩
  | @queued j h =>
    rw [hqueued] at h
    cases j with
    | zero =>
      obtain rfl := Option.some.inj h
      rw [← held_append_queued, hqueued] at hnodup
      rw [← held_append_queued, hheld]
      exact .inl (List.nodup_cons.1 (List.perm_middle.nodup_iff.1 hnodup)).1
    | succ j => exact .inr ⟨j + 1, Nat.le_succ _, .queued h⟩

/-- A request has no place in a batch at the head of the loop. -/
theorem queued_of_recvFirst (hp : s.phase = .recvFirst) (h : s.Place r k) :
    ∃ j, k = j + 1 ∧ s.queued[j]? = some r := by
  cases h with
  | held h =>
    rw [State.held, hp] at h
    cases h
  | @queued j h => exact ⟨j, rfl, h⟩

end Place

/-- What a step does to the place of a request: it stays where it is or moves up, and it moves up
when a batch begins. -/
def Moves (s s' : State V) (r k : ℕ) : Prop :=
  ∃ k' ≤ k, s'.Place r k' ∧ (s.phase = .recvFirst → s'.phase ≠ .recvFirst → k' < k)

omit [RatioArith F] in
theorem moves_of_phase (hp : s.phase ≠ .recvFirst) (h : ∃ k' ≤ k, s'.Place r k') :
    Moves s s' r k := by
  obtain ⟨k', hle, h⟩ := h
  exact ⟨k', hle, h, fun hp' => absurd hp' hp⟩

omit [RatioArith F] in
/-- A batch begins with the first item of the queue. -/
theorem moves_of_begin (r₀ : ℕ) (hp : s.phase = .recvFirst) (h : s.Place r k)
    (hheld : s'.held = [r₀]) (hqueued : s.queued = r₀ :: s'.queued) : Moves s s' r k := by
  obtain ⟨j, rfl, hj⟩ := queued_of_recvFirst hp h
  rw [hqueued] at hj
  cases j with
  | zero =>
    obtain rfl := Option.some.inj hj
    exact ⟨0, Nat.zero_le _, .held (hheld ▸ List.mem_singleton_self _),
      fun _ _ => Nat.zero_lt_succ _⟩
  | succ j => exact ⟨j + 1, Nat.le_succ _, .queued hj, fun _ _ => Nat.lt_succ_self _⟩

/-- **Step lemma.** The sender of a request is used or dropped, or the request moves. -/
theorem place_of_trans (hs : (machine V cfg).Reachable (fun _ _ => True) s) (h : s.Place r k)
    (hstep : Trans cfg s a s') : r ∉ s'.senders ∨ Moves s s' r k := by
  have hnodup := nodup_senders hs
  have hkeep (hheld : s'.held = s.held) (hqueued : s.queued <+: s'.queued)
      (hp : s.phase = .recvFirst → s'.phase = .recvFirst) : r ∉ s'.senders ∨ Moves s s' r k :=
    .inr ⟨k, Nat.le_refl _, h.frame hheld hqueued, fun h₁ h₂ => absurd (hp h₁) h₂⟩
  have hleave (r₀ : ℕ) (hp : s.phase ≠ .recvFirst) (hheld : s.held.Perm (r₀ :: s'.held))
      (hqueued : s'.queued = s.queued) : r ∉ s'.senders ∨ Moves s s' r k :=
    (h.leave r₀ hnodup hheld hqueued).imp_right fun h' => moves_of_phase hp ⟨k, Nat.le_refl _, h'⟩
  cases hstep with
  | @takeCarry c hp hc =>
    exact .inr (moves_of_begin c.reply hp h rfl (by rw [State.queued, hc]; rfl))
  | @takeFirst i rest hp hc hq =>
    refine .inr (moves_of_begin i.reply hp h rfl ?_)
    simp [State.queued, hc, hq]
  | stop hp hc hq =>
    obtain ⟨j, -, hj⟩ := queued_of_recvFirst hp h
    simp [State.queued, hc, hq] at hj
  | saturate hp | drained hp | deadline hp =>
    exact hkeep (by simp [State.held, Phase.current, Phase.awaiting, hp]) List.prefix_rfl
      (by simp [hp])
  | @skip accum batch item rest hp _ hq =>
    have hcarry := carry_eq_none_of_fill hs hp
    refine Or.imp_right (moves_of_phase (by simp [hp])) (h.skip item.reply hnodup rfl ?_)
    simp [State.queued, hcarry, hq]
  | @defer accum batch item rest hp _ hq =>
    have hcarry := carry_eq_none_of_fill hs hp
    refine hkeep (by simp [State.held, Phase.current, Phase.awaiting, hp]) ?_ (by simp [hp])
    simp [State.queued, hcarry, hq]
  | @join accum batch item rest hp _ hq =>
    have hcarry := carry_eq_none_of_fill hs hp
    refine .inr (moves_of_phase (by simp [hp]) (h.join item.reply ?_ ?_))
    · simp [State.held, Phase.current, Phase.awaiting, hp]
    · simp [State.queued, hcarry, hq]
  | @drop kept item todo hp =>
    refine hleave item.reply (by simp [hp]) ?_ rfl
    simp [State.held, Phase.current, Phase.awaiting, hp]
  | keep hp | restart hp | dispatch hp | scattered hp | fanned hp =>
    exact hkeep (by simp [State.held, Phase.current, Phase.awaiting, hp]) List.prefix_rfl
      (by simp [hp])
  | @sendOk r₀ n todo vecs hp =>
    exact hleave r₀ (by simp [hp])
      (by simp [State.held, Phase.current, Phase.awaiting, hp]) rfl
  | @sendErr r₀ rs msg hp =>
    exact hleave r₀ (by simp [hp])
      (by simp [State.held, Phase.current, Phase.awaiting, hp]) rfl
  | drainPanic hp hn =>
    have hsound := (sending_of_reachable hs).sound
    rw [hp, Phase.Sound, List.map_cons, List.sum_cons] at hsound
    omega
  | @embedDone counts replies ids o hp =>
    have hsound := (sending_of_reachable hs).sound
    rw [hp] at hsound
    obtain ⟨-, hawaiting⟩ := sound_afterEmbed o hsound.1 hsound.2
    refine hkeep ?_ List.prefix_rfl (by simp [hp])
    simp only [State.held, hawaiting, current_afterEmbed, hp]
    rfl
  | enqueue =>
    refine hkeep rfl ?_ id
    simp only [State.queued, ← List.append_assoc, List.map_append]
    exact List.prefix_append _ _
  | submitEmpty | submitFull | submitChecked | sendFull | cancel | close =>
    exact hkeep rfl List.prefix_rfl id

/-! ### The time until the next batch -/

/-- The time from one batch to the next: the timer, the call of `embed_fn`, and the latency of five
stages. -/
def cycle (timing : Timing) : ℕ := timing.wait + timing.inference + 5 * timing.latency

/-- The time from the start of a stage until the worker is about to begin the next batch. -/
def remaining (timing : Timing) : Phase V → ℕ
  | .fill .. => timing.wait + timing.inference + 4 * timing.latency
  | .retain .. => timing.inference + 3 * timing.latency
  | .infer .. => timing.inference + 2 * timing.latency
  | .scatter .. | .fanErr .. => timing.latency
  | .recvFirst | .stopped | .panicked => 0

section Stages

omit [RatioArith F]

theorem remaining_le_cycle (timing : Timing) (p : Phase V) : remaining timing p ≤ cycle timing := by
  cases p <;> simp only [remaining, cycle] <;> omega

/-- While an item waits, the worker is about to begin a batch. -/
theorem stage_eq_ready (hp : s.phase = .recvFirst) (hq : s.queued ≠ []) : s.stage = .ready := by
  rw [State.stage, hp]
  refine if_neg fun ⟨hcarry, hchannel, _⟩ => hq ?_
  rw [State.queued, hcarry, hchannel]
  rfl

theorem stage_ne_of_recvFirst {stage : Stage} (hp : s.phase = .recvFirst) (hidle : .idle ≠ stage)
    (hready : .ready ≠ stage) : s.stage ≠ stage := by
  rw [State.stage, hp]
  dsimp only
  split
  · exact hidle
  · exact hready

/-- A step of a producer or a requester starts no stage while an item waits. -/
theorem stage_of_frame (h : s.Place r k) (hp : s'.phase = s.phase)
    (hqueued : s.queued <+: s'.queued) : s'.stage = s.stage := by
  cases hphase : s.phase with
  | recvFirst =>
    obtain ⟨j, -, hj⟩ := queued_of_recvFirst hphase h
    have hne : s.queued ≠ [] := List.ne_nil_of_mem (List.mem_of_getElem? hj)
    rw [stage_eq_ready hphase hne, stage_eq_ready (hp.trans hphase) (hqueued.ne_nil hne)]
  | _ => simp only [State.stage, hp, hphase]

end Stages

/-- A step begins a batch, or leaves no more time until the next one. -/
theorem remaining_of_trans {clock since since' : ℕ} (h : s.Place r k)
    (hin : ∀ d ∈ stay timing s.stage, clock ≤ since + d) (hstep : Trans cfg s a s')
    (hsince : since' = if s'.stage ≠ s.stage then clock else since) :
    (s.phase = .recvFirst ∧ s'.phase ≠ .recvFirst ∧
        since' + remaining timing s'.phase ≤ since + cycle timing) ∨
      since' + remaining timing s'.phase ≤ since + remaining timing s.phase := by
  have hsame (hstage : s'.stage = s.stage) : since' = since := by
    rw [hsince, if_neg (not_not.2 hstage)]
  have hnext {stage stage' : Stage} {d : ℕ} (hstage : s.stage = stage) (hstage' : s'.stage = stage')
      (hne : stage' ≠ stage) (hd : stay timing stage = some d) : since' ≤ since + d := by
    rw [hsince, hstage, hstage', if_pos hne]
    exact hin d (hstage ▸ hd)
  have hready (hp : s.phase = .recvFirst) : s.stage = .ready := by
    obtain ⟨j, -, hj⟩ := queued_of_recvFirst hp h
    exact stage_eq_ready hp (List.ne_nil_of_mem (List.mem_of_getElem? hj))
  have hstage {p : Phase V} (hp : s.phase = p) : s.stage = { s with phase := p }.stage := by
    subst hp
    rfl
  cases hstep with
  | takeCarry hp | takeFirst hp =>
    have hle := hnext (hready hp) rfl nofun rfl
    refine .inl ⟨hp, nofun, ?_⟩
    simp only [remaining, cycle, State.beginBatch]
    omega
  | stop hp hc hq =>
    obtain ⟨j, -, hj⟩ := queued_of_recvFirst hp h
    simp [State.queued, hc, hq] at hj
  | saturate hp | drained hp | deadline hp | defer hp =>
    have hle := hnext (hstage hp) rfl nofun rfl
    refine .inr ?_
    simp only [hp, remaining, State.leaveFill]
    omega
  | dispatch hp =>
    have hle := hnext (hstage hp) rfl nofun rfl
    refine .inr ?_
    simp only [hp, remaining]
    omega
  | @embedDone counts replies ids o hp =>
    rcases afterEmbed_eq counts replies ids.length o with ⟨msg, ho⟩ | ⟨vecs, -, -, ho⟩
    all_goals
      rw [ho] at hnext ⊢
      have hle := hnext (hstage hp) rfl nofun rfl
      refine .inr ?_
      simp only [hp, remaining]
      omega
  | restart hp | scattered hp | fanned hp =>
    have hle := hnext (hstage hp) rfl (stage_ne_of_recvFirst rfl nofun nofun) rfl
    refine .inr ?_
    simp only [hp, remaining]
    omega
  | drainPanic hp =>
    have hle := hnext (hstage hp) rfl nofun rfl
    refine .inr ?_
    simp only [hp, remaining]
    omega
  | skip hp =>
    rw [hsame (by simp only [State.stage, State.skip_phase, hp])]
    exact .inr (Nat.le_refl _)
  | join hp | drop hp | keep hp | sendOk hp | sendErr hp =>
    rw [hsame (hstage hp).symm]
    simp only [hp, remaining, State.skip, State.send]
    exact .inr (Nat.le_refl _)
  | enqueue =>
    rw [hsame (stage_of_frame h rfl ?_)]
    · exact .inr (Nat.le_refl _)
    · simp only [State.queued, ← List.append_assoc, List.map_append]
      exact List.prefix_append _ _
  | submitEmpty | submitFull | submitChecked | sendFull | cancel | close =>
    rw [hsame (stage_of_frame h rfl List.prefix_rfl)]
    exact .inr (Nat.le_refl _)

/-! ### The deadline of a request -/

/-- The batch of the request is over by the time `due`. -/
def Due (timing : Timing) (r due : ℕ) (s : State V) (since : ℕ) : Prop :=
  ∃ k, s.Place r k ∧ since + remaining timing s.phase + k * cycle timing ≤ due

variable {due clock since since' : ℕ}

/-- **Step lemma.** The sender of a request is used or dropped, or the deadline stays. -/
theorem Due.step (hs : (machine V cfg).Reachable (fun _ _ => True) s)
    (h : Due timing r due s since) (hin : ∀ d ∈ stay timing s.stage, clock ≤ since + d)
    (hstep : Trans cfg s a s') (hsince : since' = if s'.stage ≠ s.stage then clock else since) :
    r ∉ s'.senders ∨ Due timing r due s' since' := by
  obtain ⟨k, hplace, hdue⟩ := h
  refine (place_of_trans hs hplace hstep).imp_right fun ⟨k', hle, hplace', hbegin⟩ => ?_
  refine ⟨k', hplace', ?_⟩
  rcases remaining_of_trans hplace hin hstep hsince with ⟨hp, hp', htime⟩ | htime
  · -- the request moves up by a place, and the cycle of the batch begins
    have hplaces : (k' + 1) * cycle timing ≤ k * cycle timing :=
      Nat.mul_le_mul_right _ (hbegin hp hp')
    rw [Nat.succ_mul] at hplaces
    omega
  · have hplaces : k' * cycle timing ≤ k * cycle timing := Nat.mul_le_mul_right _ hle
    omega

/-- A request is not answered late. -/
theorem Due.clock_le (hs : (machine V cfg).Reachable (fun _ _ => True) s)
    (h : Due timing r due s since) (hin : ∀ d ∈ stay timing s.stage, clock ≤ since + d) :
    clock ≤ due := by
  obtain ⟨k, hplace, hdue⟩ := h
  have hover (ho : s.phase.Over = true) : clock ≤ due := by
    have hsender := mem_senders_of_place hplace
    rw [(senders_of_over hs ho).2.2] at hsender
    cases hsender
  cases hp : s.phase with
  | recvFirst =>
    obtain ⟨j, rfl, hj⟩ := queued_of_recvFirst hp hplace
    rw [stage_eq_ready hp (List.ne_nil_of_mem (List.mem_of_getElem? hj))] at hin
    have hready := hin _ rfl
    rw [Nat.succ_mul, cycle] at hdue
    omega
  | stopped | panicked => exact hover (hp ▸ rfl)
  | _ =>
    rw [State.stage, hp] at hin
    have hstage := hin _ rfl
    simp only [hp, remaining] at hdue
    omega

/-- The reply of a request has arrived, or its requester has gone. -/
def State.Answered (s : State V) (r : ℕ) : Prop := r ∈ s.cancelled ∨ ∃ x, s.repliesTo r = [x]

theorem cancelled_subset_of_trans (h : Trans cfg s a s') : s.cancelled ⊆ s'.cancelled := by
  cases h with
  | cancel => exact List.subset_cons_self _ _
  | _ => exact List.Subset.refl _

/-- The replies stay delivered. -/
theorem replies_prefix_of_trans (h : Trans cfg s a s') : s.replies <+: s'.replies := by
  cases h with
  | sendOk | sendErr =>
    rw [State.send_replies]
    split
    · exact List.prefix_rfl
    · exact List.prefix_append _ _
  | _ => exact List.prefix_rfl

theorem State.Answered.step (hs' : (machine V cfg).Reachable (fun _ _ => True) s')
    (h : s.Answered r) (hstep : Trans cfg s a s') : s'.Answered r := by
  refine h.imp (fun hgone => cancelled_subset_of_trans hstep hgone) ?_
  rintro ⟨x, hx⟩
  have hpre : s.repliesTo r <+: s'.repliesTo r :=
    ((replies_prefix_of_trans hstep).filter _).map _
  have hone := length_repliesTo_le_one hs' r
  rw [hx] at hpre
  exact ⟨x, (hpre.eq_of_length_le hone).symm⟩

theorem answered_of_notMem_senders (hs : (machine V cfg).Reachable (fun _ _ => True) s)
    {item : Item} (hi : item ∈ s.accepted) (h : item.reply ∉ s.senders) :
    s.Answered item.reply := by
  by_cases hgone : item.reply ∈ s.cancelled
  · exact .inl hgone
  · exact .inr (repliesTo_of_notMem_senders hs hi hgone h)

/-- **Run lemma.** A request is answered after as many cycles as its place says, and one more. -/
theorem answered_of_lt {item : Item} (ht : (paced V cfg timing).Reachable (fun _ _ => True) t)
    (hi : item ∈ t.state.state.accepted) (hplace : t.state.state.Place item.reply k)
    (hp : (paced V cfg timing).Path (fun _ _ => True) t bs t')
    (hlate : t.state.clock + (k + 1) * cycle timing < t'.state.clock) :
    t'.state.state.Answered item.reply := by
  have hdone : item ∈ t'.state.state.accepted ∧ (t'.state.state.Answered item.reply ∨
      Due timing item.reply (t.state.clock + (k + 1) * cycle timing) t'.state.state t'.since) := by
    clear hlate
    induction hp with
    | nil =>
      refine ⟨hi, .inr ⟨k, hplace, ?_⟩⟩
      have hstart := since_le_clock ht
      have hrest := remaining_le_cycle timing t.state.state.phase
      rw [Nat.succ_mul]
      omega
    | @snoc t₁ t₂ b bs hp _ h ih =>
      have hs := reachable_of_paced (ht.path hp)
      have hs' := reachable_of_paced (ht.path (.snoc hp trivial h))
      rcases paced_cases h with ⟨hstate, hsince⟩ | ⟨a, -, hstep, -, hsince⟩
      · rwa [hstate, hsince]
      · obtain ⟨hi, ih⟩ := ih
        have hi' : item ∈ t₂.state.state.accepted :=
          accepted_mono (C := fun _ _ => True) (.snoc .nil trivial hstep) hi
        refine ⟨hi', ?_⟩
        rcases ih with hanswered | hdue
        · exact .inl (hanswered.step hs' (trans_of_step hstep))
        · exact (hdue.step hs (inTime_of_paced (ht.path hp)) (trans_of_step hstep) hsince).imp_left
            (answered_of_notMem_senders hs' hi')
  have ht' := ht.path hp
  refine hdone.2.resolve_right fun hdue => Nat.not_le_of_lt hlate ?_
  exact hdue.clock_le (reachable_of_paced ht') (inTime_of_paced ht')

/-- A request that waits has a place, and the capacity of the channel bounds it. -/
theorem exists_place_of_accepted (hs : (machine V cfg).Reachable (fun _ _ => True) s) {item : Item}
    (hi : item ∈ s.accepted) :
    s.Answered item.reply ∨ ∃ k ≤ cfg.maxQueue.toNat + 1, s.Place item.reply k := by
  by_cases hsender : item.reply ∈ s.senders
  · obtain ⟨k, hk, hplace⟩ := exists_place hsender
    refine .inr ⟨k, hk.trans ?_, hplace⟩
    have hchannel := length_le_of_reachable hs
    have hcarry : s.carry.toList.length ≤ 1 := by cases s.carry <;> simp
    rw [State.queued, List.length_map, List.length_append]
    omega
  · exact .inl (answered_of_notMem_senders hs hi hsender)

/-! ### Time passes -/

/-- The actions by which time passes, or the worker goes on. -/
def goesOn : List (Tick (Action V)) :=
  [.wait 1, .act .worker, .act .deadline, .act (.embedDone (.err ""))]

/-- When a stage is due, the worker can go on. -/
theorem exists_step_of_due {d : ℕ} (hd : d ∈ stay timing s.stage) :
    ∃ a, .act a ∈ goesOn (V := V) ∧ (a = .deadline → timing.wait ≤ d) ∧
      (step cfg s a).isSome = true := by
  have hworker {p : Phase V} (hp : s.phase = p)
      (h : (workerStep cfg { s with phase := p }).isSome = true) :
      ∃ a, .act a ∈ goesOn (V := V) ∧ (a = .deadline → timing.wait ≤ d) ∧
        (step cfg s a).isSome = true := by
    subst hp
    exact ⟨.worker, .tail _ (.head _), by simp, h⟩
  rw [State.stage] at hd
  cases hp : s.phase with
  | recvFirst =>
    refine hworker hp ?_
    rw [hp] at hd
    cases hcarry : s.carry with
    | some c => simp [workerStep]
    | none =>
      cases hchannel : s.channel with
      | cons item rest => simp [workerStep]
      | nil =>
        cases hclosed : s.closed with
        | true => simp [workerStep]
        | false => simp [stay, hcarry, hchannel, hclosed] at hd
  | fill accum batch =>
    rw [hp] at hd
    cases hsat : accum.saturated cfg with
    | true => exact hworker hp (by simp [workerStep, hsat])
    | false =>
      refine ⟨.deadline, .tail _ (.tail _ (.head _)), fun _ => ?_, by simp [step, hp, hsat]⟩
      obtain rfl : timing.wait + timing.latency = d := Option.some.inj hd
      exact Nat.le_add_right _ _
  | retain kept todo =>
    refine hworker hp ?_
    cases todo with
    | nil => cases kept <;> simp [workerStep]
    | cons item todo =>
      by_cases hc : item.reply ∈ s.cancelled <;> simp [workerStep, State.isClosed, hc]
  | infer counts replies ids =>
    exact ⟨.embedDone (.err ""), .tail _ (.tail _ (.tail _ (.head _))), by simp, by simp [step, hp]⟩
  | scatter todo vecs =>
    refine hworker hp ?_
    cases todo with
    | nil => simp [workerStep]
    | cons p todo => by_cases hn : p.2 ≤ vecs.length <;> simp [workerStep, hn]
  | fanErr replies msg =>
    refine hworker hp ?_
    cases replies <;> simp [workerStep]
  | stopped | panicked =>
    rw [hp] at hd
    cases hd

/-- **Time passes, or the worker goes on.** -/
theorem goesOn_of_reachable (ht : (paced V cfg timing).Reachable D t) :
    ∃ b ∈ goesOn, ((paced V cfg timing).step t b).isSome = true := by
  have hstart := since_le_clock ht
  by_cases hlt : ∀ d ∈ stay timing t.state.state.stage, t.state.clock < t.since + d
  · exact ⟨.wait 1, .head _, Option.isSome_iff_exists.2
      ⟨_, Pacing.step_eq_some_iff.2 ⟨hstart, _, rfl, rfl, hlt⟩⟩⟩
  · push Not at hlt
    obtain ⟨d, hd, hdue⟩ := hlt
    obtain ⟨a, ha, hwait, hstep⟩ : ∃ a, .act a ∈ goesOn (V := V) ∧
        (a = .deadline → timing.wait ≤ d) ∧ (step cfg t.state.state a).isSome = true :=
      exists_step_of_due hd
    obtain ⟨s', hs'⟩ := Option.isSome_iff_exists.1 hstep
    refine ⟨_, ha, paced_act ht ?_ hs'⟩
    cases a with
    | deadline => exact (Nat.add_le_add_left (hwait rfl) _).trans hdue
    | _ => exact hstart

/-! ### Every request is answered in time -/

/-- Every request is answered in time, and time passes. -/
structure AnswersInTime (V : Type) (cfg : BatcherConfig F) (timing : Timing) : Prop where
  /-- Time passes, or the worker goes on. -/
  proceeds : ∀ t, (paced V cfg timing).Reachable (fun _ _ => True) t →
    ∃ b ∈ goesOn, ((paced V cfg timing).step t b).isSome = true
  /-- A request that waits has a place, and the capacity of the channel bounds it. -/
  place : ∀ t, (paced V cfg timing).Reachable (fun _ _ => True) t →
    ∀ item ∈ t.state.state.accepted, t.state.state.Answered item.reply ∨
      ∃ k ≤ cfg.maxQueue.toNat + 1, t.state.state.Place item.reply k
  /-- The request is answered after as many cycles as its place says, and one more, or its requester
  has gone. -/
  answered : ∀ t bs t' k, (paced V cfg timing).Reachable (fun _ _ => True) t →
    ∀ item ∈ t.state.state.accepted, t.state.state.Place item.reply k →
    (paced V cfg timing).Path (fun _ _ => True) t bs t' →
    t.state.clock + (k + 1) * cycle timing < t'.state.clock →
    t'.state.state.Answered item.reply

/-- **Every request is answered in time**, in every order of requests, cancellations and steps of
the worker. -/
theorem answersInTime (cfg : BatcherConfig F) (timing : Timing) : AnswersInTime V cfg timing :=
  ⟨fun _ => goesOn_of_reachable,
    fun _ ht _ hi => exists_place_of_accepted (reachable_of_paced ht) hi,
    fun _ _ _ _ ht _ hi hplace hp hlate => answered_of_lt ht hi hplace hp hlate⟩

end OxEmbed.Batcher

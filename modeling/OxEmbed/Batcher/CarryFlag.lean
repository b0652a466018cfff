import OxEmbed.Batcher.Drain

/-!
# The flag of the carry slot

The carry slot is a local variable of the worker. `shutdown` cannot see it, so the worker keeps the
atomic flag `carry_pending` next to it: `carry.take()` is followed by a store of `false`, and each
of the three overflow gates moves its item into the slot and then stores `true`. Between the two
writes the flag is wrong. This file models the writes one by one, and shows that the flag is right
wherever the worker awaits, so that a `shutdown` that times out there counts a lost carry exactly
when its abort drops one.

The machine of single writes refines the batcher with its shutdown (`shutdownMachine`): an update of
the slot and its flag is one step of the batcher, taken at the first of the two writes.

## Main definitions

* `Gate`, `BatchAccum.gate` : the gates of the fill loop, in their order.
* `WritePoint`, `FineState`, `fineMachine` : the batcher with single writes and the two steps of a
  `shutdown` that times out.
* `flush` : the batcher after the second write.
* `CarryMirrored` : the contract of the flag.

## Main results

* `fineSimulation` : the machine of single writes refines the batcher with its shutdown.
* `carryMirrored_of_reachable` : the contract holds in every reachable state.
-/

namespace OxEmbed.Batcher

variable {F V : Type}

/-! ### Single writes -/

/-- The gates that defer an item to the next batch. -/
inductive Gate
  | seqCapped
  | lengthRatio
  | budget
  deriving DecidableEq, Repr

/-- The first gate that defers the item, in the order in which the fill loop checks them. -/
def BatchAccum.gate [RatioArith F] (cfg : BatcherConfig F) (accum : BatchAccum) (item : Item) :
    Option Gate :=
  if accum.items > 0 && accum.seqCappedBy cfg item then some .seqCapped
  else if accum.lengthRatioOverflow cfg item then some .lengthRatio
  else if !accum.fits cfg item then some .budget
  else none

/-- Where the worker is between the writes of the carry slot and its flag. -/
inductive WritePoint
  /-- At neither place. -/
  | settled
  /-- `carry.take()` gave `c`, and `carry_pending` is about to be cleared. -/
  | taken (c : Item)
  /-- A gate moved an item into the slot, and `carry_pending` is about to be set. -/
  | deferred (gate : Gate) (batch : List Item)
  deriving DecidableEq

/-- The batcher in the middle of an update, with the part of `shutdown` after its timeout. -/
structure FineState (V : Type) where
  batcher : State V
  point : WritePoint
  /-- Whether `shutdown` recorded a lost carry, once it has read the flag. -/
  recorded : Option Bool
  /-- History: what was in the carry slot when the worker was aborted. -/
  lost : Option (Option Item)

/-- The actions of a schedule. -/
inductive FineAction (V : Type)
  | batcher (a : Action V)
  /-- The timeout of `shutdown` has fired, and it reads the flag. -/
  | load
  /-- `worker.abort()`. -/
  | abort

/-- The worker awaits, and no write is outstanding. -/
def FineState.suspended (cfg : BatcherConfig F) (t : FineState V) : Bool :=
  decide (t.point = .settled) && t.batcher.suspended cfg

section Step

variable [RatioArith F]

/-- The next step of the worker, with at most one of the two writes. -/
def fineWorkerStep (cfg : BatcherConfig F) (s : State V) :
    WritePoint → Option (State V × WritePoint)
  | .taken c => some ({ s with carryPending := false }.beginBatch c, .settled)
  | .deferred _ batch => some ({ s with carryPending := true }.leaveFill batch, .settled)
  | .settled =>
    match s.phase with
    | .recvFirst =>
      match s.carry with
      | some c => some ({ s with carry := none }, .taken c)
      | none => (workerStep cfg s).map (·, .settled)
    | .fill accum batch =>
      match s.channel with
      | item :: rest =>
        if accum.saturated cfg || s.isClosed item then (workerStep cfg s).map (·, .settled)
        else
          match accum.gate cfg item with
          | some gate =>
            some ({ s with
              channel := rest
              carry := some item
              deferred := s.deferred ++ [(item, s.formed.length)] }, .deferred gate batch)
          | none => (workerStep cfg s).map (·, .settled)
      | [] => (workerStep cfg s).map (·, .settled)
    | _ => (workerStep cfg s).map (·, .settled)

/-- One step. The timer and the embed task wake a worker that awaits. -/
def FineState.step (cfg : BatcherConfig F) (t : FineState V) : FineAction V → Option (FineState V)
  | .batcher .worker =>
    (fineWorkerStep cfg t.batcher t.point).map fun p => { t with batcher := p.1, point := p.2 }
  | .batcher a =>
    if a.advances = false ∨ t.point = .settled then
      (Batcher.step cfg t.batcher a).map fun s => { t with batcher := s }
    else none
  | .load =>
    if t.batcher.closed && t.recorded.isNone then
      some { t with recorded := some t.batcher.carryPending }
    else none
  | .abort =>
    if t.batcher.closed && t.recorded.isSome && t.suspended cfg then
      some { t with batcher := t.batcher.abort, lost := some t.batcher.carry }
    else none

/-- The batcher with single writes, as a machine. -/
def fineMachine (V : Type) (cfg : BatcherConfig F) : Machine (FineState V) (FineAction V) where
  Init t := 0 < cfg.maxQueue.toNat ∧ t = ⟨start, .settled, none, none⟩
  step := FineState.step cfg

end Step

/-! ### The two writes as one step -/

/-- The batcher after the outstanding write. -/
def flush (s : State V) : WritePoint → State V
  | .settled => s
  | .taken c => { s with carryPending := false }.beginBatch c
  | .deferred _ batch => { s with carryPending := true }.leaveFill batch

variable [RatioArith F] {cfg : BatcherConfig F} {s s' : State V} {a : Action V}

/-- An item is deferred when one of the gates defers it. -/
theorem isSome_gate (cfg : BatcherConfig F) (accum : BatchAccum) (item : Item) :
    (accum.gate cfg item).isSome = accum.overflows cfg item := by
  unfold BatchAccum.gate BatchAccum.overflows
  split
  · simp [*]
  · split
    · simp [*]
    · split <;> simp_all

/-- The worker either performs the outstanding write, or takes a step of the batcher whose second
write may then be outstanding. -/
theorem fineWorkerStep_spec {p p' : WritePoint} (h : fineWorkerStep cfg s p = some (s', p')) :
    (p ≠ .settled ∧ p' = .settled ∧ s' = flush s p) ∨
      (p = .settled ∧ step cfg s .worker = some (flush s' p') ∧
        (p' = .settled ∨ s'.phase.Over = false)) := by
  have hcoarse (h : (workerStep cfg s).map (·, WritePoint.settled) = some (s', p')) :
      step cfg s .worker = some (flush s' p') ∧ (p' = .settled ∨ s'.phase.Over = false) := by
    obtain ⟨s₁, hs₁, heq⟩ := Option.map_eq_some_iff.mp h
    obtain ⟨rfl, rfl⟩ := Prod.mk.inj heq
    exact ⟨hs₁, .inl rfl⟩
  cases p with
  | taken c =>
    obtain ⟨rfl, rfl⟩ := Prod.mk.inj (Option.some.inj h)
    exact .inl ⟨nofun, rfl, rfl⟩
  | deferred gate batch =>
    obtain ⟨rfl, rfl⟩ := Prod.mk.inj (Option.some.inj h)
    exact .inl ⟨nofun, rfl, rfl⟩
  | settled =>
    refine .inr ⟨rfl, ?_⟩
    simp only [fineWorkerStep] at h
    split at h
    · rename_i hp
      split at h
      · rename_i c hc
        obtain ⟨rfl, rfl⟩ := Prod.mk.inj (Option.some.inj h)
        refine ⟨?_, .inr (by rw [hp]; rfl)⟩
        simp only [step, workerStep, hp, hc]
        rfl
      · exact hcoarse h
    · rename_i accum batch hp
      split at h
      · rename_i item rest hq
        split at h
        · exact hcoarse h
        · rename_i hopen
          obtain ⟨hsat, hlive⟩ := Bool.or_eq_false_iff.mp (Bool.eq_false_iff.mpr hopen)
          split at h
          · rename_i gate hgate
            obtain ⟨rfl, rfl⟩ := Prod.mk.inj (Option.some.inj h)
            have hover : accum.overflows cfg item = true := by
              rw [← isSome_gate, hgate, Option.isSome_some]
            refine ⟨?_, .inr (by rw [hp]; rfl)⟩
            simp only [step, workerStep, hp, hq, hsat, hlive, hover, Bool.false_eq_true, if_false,
              if_true]
            rfl
          · exact hcoarse h
      · exact hcoarse h
    · exact hcoarse h

/-- What the other threads do does not depend on the worker, except on whether it has ended. -/
theorem step_of_parked (ha : a.advances = false) (h : step cfg s a = some s') {p : Phase V}
    (hp : p.Over = s.phase.Over) (pending : Bool) (formed : List (List Item)) :
    step cfg { s with phase := p, carryPending := pending, formed := formed } a =
      some { s' with phase := p, carryPending := pending, formed := formed } := by
  cases trans_of_step h with
  | submitEmpty hcl => simp [step, hcl, State.refuse]
  | submitFull hcl hne hd =>
    have hopen : ¬ s.closed = true := by simp [hcl]
    exact (if_neg hopen).trans ((dif_neg hne).trans (if_pos hd))
  | submitChecked hcl hne hd =>
    have hopen : ¬ s.closed = true := by simp [hcl]
    exact (if_neg hopen).trans ((dif_neg hne).trans (if_neg (Nat.not_le.mpr hd)))
  | sendFull hi hf =>
    rw [← hp] at hf
    exact (if_pos hi).trans (if_pos hf)
  | enqueue hi ho hc =>
    rw [← hp] at ho
    exact (if_pos hi).trans (if_neg (not_or.mpr ⟨by simp [ho], hc⟩))
  | cancel hr => simp [step, hr]
  | close hc => simp [step, hc]
  | _ => cases ha

/-- They leave the worker where it is. -/
theorem frame_of_parked (ha : a.advances = false) (h : step cfg s a = some s') :
    s'.phase = s.phase ∧ s'.carry = s.carry ∧ s'.carryPending = s.carryPending ∧
      s'.formed = s.formed := by
  cases trans_of_step h with
  | submitEmpty | submitFull | submitChecked | sendFull | enqueue | cancel | close =>
    exact ⟨rfl, rfl, rfl, rfl⟩
  | _ => cases ha

theorem flush_of_parked (ha : a.advances = false) (h : step cfg s a = some s') {p : WritePoint}
    (hp : p = .settled ∨ s.phase.Over = false) :
    step cfg (flush s p) a = some (flush s' p) := by
  obtain ⟨-, -, -, hformed⟩ := frame_of_parked ha h
  cases p with
  | settled => exact h
  | taken c =>
    have hover := hp.resolve_left nofun
    have hstep := step_of_parked ha h (p := .fill (BatchAccum.empty.push c) [c]) hover.symm false
      s.formed
    have hflush : flush s' (.taken c) = { s' with
        phase := .fill (BatchAccum.empty.push c) [c]
        carryPending := false
        formed := s.formed } := by
      rw [← hformed]
      rfl
    rw [hflush]
    exact hstep
  | deferred gate batch =>
    have hover := hp.resolve_left nofun
    have hstep := step_of_parked ha h (p := .retain [] batch) hover.symm true (s.formed ++ [batch])
    have hflush : flush s' (.deferred gate batch) = { s' with
        phase := .retain [] batch
        carryPending := true
        formed := s.formed ++ [batch] } := by
      rw [← hformed]
      rfl
    rw [hflush]
    exact hstep

/-- A step of the batcher other than the worker's own happens while the worker awaits, or does not
concern it. -/
theorem FineState.step_batcher {t t' : FineState V} (ha : a ≠ .worker)
    (hstep : FineState.step cfg t (.batcher a) = some t') :
    (a.advances = false ∨ t.point = .settled) ∧
      ∃ s, Batcher.step cfg t.batcher a = some s ∧ t' = { t with batcher := s } := by
  have hguard : (if a.advances = false ∨ t.point = .settled then
      (Batcher.step cfg t.batcher a).map fun s => { t with batcher := s } else none) = some t' := by
    cases a with
    | worker => exact absurd rfl ha
    | _ => exact hstep
  obtain ⟨hwake, heq⟩ := Option.ite_none_right_eq_some.mp hguard
  obtain ⟨s, hs, rfl⟩ := Option.map_eq_some_iff.mp heq
  exact ⟨hwake, s, hs, rfl⟩

/-! ### The refinement -/

/-- The batcher with its shutdown, after the outstanding write. -/
structure Flushed (t : FineState V) (u : Shutdown V) : Prop where
  batcher : u.batcher = flush t.batcher t.point
  running : t.point = .settled ∨ t.batcher.phase.Over = false

/-- **Step lemma.** A step of single writes is no step or one step of the batcher. -/
theorem Flushed.step {t t' : FineState V} {u : Shutdown V} {b : FineAction V} (h : Flushed t u)
    (hstep : FineState.step cfg t b = some t') :
    Flushed t' u ∨ ∃ c u', (shutdownMachine V cfg).step u c = some u' ∧ Flushed t' u' := by
  -- one step of the batcher in the simulating machine
  have hbatcher {a : Action V} {s : State V} (hs : Batcher.step cfg u.batcher a = some s) :
      (shutdownMachine V cfg).step u (.batcher a) = some { u with batcher := s } := by
    change (Batcher.step cfg u.batcher a).map _ = _
    rw [hs]
    rfl
  cases b with
  | load =>
    obtain ⟨-, heq⟩ := Option.ite_none_right_eq_some.mp hstep
    obtain rfl := Option.some.inj heq
    exact .inl ⟨h.batcher, h.running⟩
  | abort =>
    obtain ⟨hguard, heq⟩ := Option.ite_none_right_eq_some.mp hstep
    obtain rfl := Option.some.inj heq
    simp only [Bool.and_eq_true, FineState.suspended, decide_eq_true_eq] at hguard
    obtain ⟨⟨hcl, -⟩, hpoint, hsuspended⟩ := hguard
    have hu : u.batcher = t.batcher := by rw [h.batcher, hpoint, flush]
    refine .inr ⟨.abort, ⟨u.batcher.abort, u.dropped ++ u.batcher.senders⟩, ?_, ?_, .inl hpoint⟩
    · rw [← hu] at hcl hsuspended
      exact if_pos (by rw [hcl, hsuspended]; rfl)
    · rw [hu, hpoint, flush]
  | batcher a =>
    by_cases ha : a = .worker
    · subst ha
      obtain ⟨⟨s, p⟩, hs, rfl⟩ := Option.map_eq_some_iff.mp hstep
      rcases fineWorkerStep_spec hs with ⟨-, rfl, rfl⟩ | ⟨hpoint, hs, hrunning⟩
      · exact .inl ⟨h.batcher, .inl rfl⟩
      · have hu : u.batcher = t.batcher := by rw [h.batcher, hpoint, flush]
        exact .inr ⟨.batcher .worker, _, hbatcher (hu ▸ hs), rfl, hrunning⟩
    · obtain ⟨hwake, s, hs, rfl⟩ := FineState.step_batcher ha hstep
      by_cases hparked : a.advances = false
      · have hphase := (frame_of_parked hparked hs).1
        have hflush := flush_of_parked hparked hs h.running
        rw [← h.batcher] at hflush
        exact .inr ⟨.batcher a, _, hbatcher hflush, rfl, hphase ▸ h.running⟩
      · have hpoint := hwake.resolve_left hparked
        have hu : u.batcher = t.batcher := by rw [h.batcher, hpoint, flush]
        exact .inr ⟨.batcher a, _, hbatcher (hu ▸ hs), by rw [hpoint, flush], .inl hpoint⟩

/-- **Refinement.** The machine of single writes refines the batcher with its shutdown. -/
def fineSimulation (cfg : BatcherConfig F) (C : FineState V → FineAction V → Prop) :
    Machine.Simulation (fineMachine V cfg) C (shutdownMachine V cfg) fun _ _ => True where
  Rel := Flushed
  init := by
    rintro _ ⟨hsize, rfl⟩
    exact ⟨⟨start, []⟩, ⟨⟨hsize, rfl⟩, rfl⟩, rfl, .inl rfl⟩
  step t b t' u _ _ h _ hstep := by
    rcases h.step hstep with h' | ⟨c, u', hu, h'⟩
    · exact .inl h'
    · exact .inr ⟨c, u', trivial, hu, h'⟩

/-! ### The contract -/

/-- **Run lemma.** In the batcher the flag is right, until the worker has stopped or is aborted. -/
theorem carryPending_of_reachable {D : Shutdown V → ShutdownAction V → Prop} {u : Shutdown V}
    (hu : (shutdownMachine V cfg).Reachable D u) :
    u.batcher.phase = .stopped ∨ u.batcher.carryPending = u.batcher.carry.isSome := by
  refine hu.invariant (P := fun u => u.batcher.phase = .stopped ∨
    u.batcher.carryPending = u.batcher.carry.isSome) ?_ ?_
  · rintro u ⟨⟨-, hstart⟩, -⟩
    rw [hstart]
    exact .inr rfl
  · rintro u c u' h - hstep
    cases c with
    | abort =>
      rw [(Shutdown.abort_cases hstep).2.2.1]
      exact .inl rfl
    | batcher a =>
      obtain ⟨s, hs, rfl⟩ := Option.map_eq_some_iff.mp hstep
      -- a worker that has stopped takes no step
      have hmoves {p : Phase V} (hp : u.batcher.phase = p) (hne : p ≠ .stopped) :
          u.batcher.carryPending = u.batcher.carry.isSome :=
        h.resolve_left (hp ▸ hne)
      cases trans_of_step hs with
      | takeCarry | defer => exact .inr rfl
      | stop => exact .inl rfl
      | submitEmpty | submitFull | submitChecked | sendFull | enqueue | cancel | close => exact h
      | takeFirst hp | saturate hp | drained hp | skip hp | join hp | drop hp | keep hp | restart hp
      | dispatch hp | sendOk hp | drainPanic hp | scattered hp | sendErr hp | fanned hp
      | deadline hp | embedDone _ hp => exact .inr (hmoves hp nofun)

/-- The action is one of the other threads, and no step of `shutdown`. -/
def FineAction.parked : FineAction V → Bool
  | .batcher a => !a.advances
  | .load | .abort => false

/-- The contract of the flag, in a state of the machine of single writes. -/
structure CarryMirrored (cfg : BatcherConfig F) (t : FineState V) : Prop where
  /-- Where the worker awaits, the flag is set exactly when the carry slot holds an item. -/
  mirrors : t.suspended cfg = true → (t.batcher.carryPending = true ↔ ∃ c, t.batcher.carry = some c)
  /-- A `shutdown` that finds the worker awaiting, and aborts it there, records a lost carry exactly
  when the abort drops a deferred item. -/
  records : t.suspended cfg = true → ∀ t₁ bs t₂ t₃, FineState.step cfg t .load = some t₁ →
    (fineMachine V cfg).Path (fun _ b => b.parked = true) t₁ bs t₂ →
    FineState.step cfg t₂ .abort = some t₃ →
    (t₃.recorded = some true ↔ ∃ c, t₃.lost = some (some c))

/-- While the worker awaits, the others change neither the slot nor what was recorded. -/
theorem parked_of_path {t t' : FineState V} {bs : List (FineAction V)}
    (hp : (fineMachine V cfg).Path (fun _ b => b.parked = true) t bs t') :
    t'.batcher.carry = t.batcher.carry ∧ t'.recorded = t.recorded := by
  induction hp with
  | nil => exact ⟨rfl, rfl⟩
  | @snoc t₁ t₂ b bs _ hparked hstep ih =>
    cases b with
    | load | abort => cases hparked
    | batcher a =>
      have ha : a.advances = false := by simpa [FineAction.parked] using hparked
      have hother : a ≠ .worker := fun h => by simp [h, Action.advances] at ha
      obtain ⟨-, s, hs, rfl⟩ := FineState.step_batcher hother hstep
      exact ⟨(frame_of_parked ha hs).2.1.trans ih.1, ih.2⟩

/-- **The flag mirrors the carry slot.** The contract holds in every reachable state, of every run
of the batcher with its producers and a shutdown. -/
theorem carryMirrored_of_reachable (cfg : BatcherConfig F) (t : FineState V)
    (ht : (fineMachine V cfg).Reachable (fun _ _ => True) t) : CarryMirrored cfg t := by
  have hflag (hsuspended : t.suspended cfg = true) :
      t.batcher.carryPending = t.batcher.carry.isSome := by
    rw [FineState.suspended, Bool.and_eq_true, decide_eq_true_eq] at hsuspended
    obtain ⟨u, hu, hrel⟩ := (fineSimulation cfg _).reachable ht
    have hbatcher : u.batcher = t.batcher := by rw [hrel.batcher, hsuspended.1, flush]
    have h := carryPending_of_reachable hu
    rw [hbatcher] at h
    refine h.resolve_left fun hstopped => ?_
    have hawait := hsuspended.2
    rw [State.suspended, hstopped] at hawait
    cases hawait
  refine ⟨fun hsuspended => ?_, fun hsuspended t₁ bs t₂ t₃ hload hp habort => ?_⟩
  · rw [hflag hsuspended, Option.isSome_iff_exists]
  · obtain ⟨-, heq⟩ := Option.ite_none_right_eq_some.mp hload
    obtain rfl := Option.some.inj heq
    obtain ⟨hcarry, hrecorded⟩ := parked_of_path hp
    obtain ⟨-, heq⟩ := Option.ite_none_right_eq_some.mp habort
    obtain rfl := Option.some.inj heq
    rw [hrecorded, hcarry, hflag hsuspended]
    simp only [Option.some.injEq, Option.isSome_iff_exists]

/-- A request of two texts is deferred past a request of one text, whose embed task is stuck when
`shutdown` times out. -/
def stuckDispatch : List (FineAction ℕ) :=
  [.submit [[1]], .submit [[2], [3]], .trySend (.ofTexts 0 [1] []),
    .trySend (.ofTexts 1 [2] [[3]]), .worker, .worker, .worker, .worker, .worker,
    .close].map .batcher

theorem carryMirrored_stuckDispatch :
    ∃ t t₁ t₂, (fineMachine ℕ pairConfig).Reachable (fun _ _ => True) t ∧
      t.suspended pairConfig = true ∧ t.batcher.carry.map Item.reply = some 1 ∧
      FineState.step pairConfig t .load = some t₁ ∧ FineState.step pairConfig t₁ .abort = some t₂ ∧
      t₂.recorded = some true ∧ CarryMirrored pairConfig t := by
  obtain ⟨t, ht, hsuspended, hcarry, t₁, hload, t₂, habort, hrecorded⟩ :
      ∃ t ∈ (fineMachine ℕ pairConfig).runUnder (fun _ _ => True) ⟨start, .settled, none, none⟩
          stuckDispatch,
        t.suspended pairConfig = true ∧ t.batcher.carry.map Item.reply = some 1 ∧
        ∃ t₁ ∈ FineState.step pairConfig t .load, ∃ t₂ ∈ FineState.step pairConfig t₁ .abort,
          t₂.recorded = some true := by
    decide +kernel
  have hreach : (fineMachine ℕ pairConfig).Reachable (fun _ _ => True) t :=
    .of_runUnder ⟨by decide, rfl⟩ ht
  exact ⟨t, t₁, t₂, hreach, hsuspended, hcarry, hload, habort, hrecorded,
    carryMirrored_of_reachable pairConfig t hreach⟩

end OxEmbed.Batcher

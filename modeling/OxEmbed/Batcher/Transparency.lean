import Mathlib.Data.List.Flatten
import Mathlib.Data.List.Infix
import Mathlib.Data.List.SplitLengths
import OxEmbed.Batcher.Order

/-!
# Batching is transparent

Whatever requests are coalesced into one call of `embed_fn`, every live requester of a dispatched
batch receives one reply, and the reply depends on its own texts and on how the call ended: its own
vectors in its own order, or the error of the call.

The vectors come back as one flat list that is drained item by item. What the worker still has to
send is a list of replies, `Phase.unsent`, and the invariant `Delivery` says that what was sent and
what is unsent are together the answers to the dispatched batches, in order.

## Main definitions

* `answer`, `answers` : the reply to an item, and to the items of a batch.
* `Pointwise` : the calls of `embed_fn` that return enough vectors map every text by `g`.
* `Delivery` : the invariant of the replies.
* `Transparent` : who receives what.

## Main results

* `delivery_of_reachable` : the invariant holds in every reachable state.
* `transparent_of_reachable` : batching is transparent.
-/

namespace OxEmbed.Batcher

variable {F V : Type}

/-! ### Answers -/

/-- The reply to an item of a batch with `total` texts, when `embed_fn` maps every text by `g`. -/
def answer (g : List UInt32 → V) (total : ℕ) (item : Item) : EmbedOutcome V → Reply V
  | .ok vecs =>
    if vecs.length ≠ total then
      .err s!"embed_fn returned {vecs.length} vectors for {total} texts"
    else .ok (item.tokenIds.map g)
  | .err msg => .err msg
  | .panic e => .err s!"embed task panicked: {e}"

/-- The replies to the items of a batch. -/
def answers (g : List UInt32 → V) (kept : List Item) (o : EmbedOutcome V) : List (ℕ × Reply V) :=
  kept.map fun item => (item.reply, answer g (texts kept).length item o)

/-- A call of `embed_fn` that returns one vector for each text maps every text by `g`. -/
def Pointwise (g : List UInt32 → V) (s : State V) (a : Action V) : Prop :=
  match a, s.phase with
  | .embedDone (.ok vecs), .infer _ _ ids => vecs.length = ids.length → vecs = ids.map g
  | _, _ => True

instance [DecidableEq V] (g : List UInt32 → V) (s : State V) (a : Action V) :
    Decidable (Pointwise g s a) := by
  unfold Pointwise
  split <;> exact inferInstance

/-- The replies that the worker still has to send for the batch at hand. -/
def Phase.unsent : Phase V → List (ℕ × Reply V)
  | .scatter todo vecs =>
    (todo.map Prod.fst).zip (((todo.map Prod.snd).splitLengths vecs).map .ok)
  | .fanErr replies msg => replies.map fun r => (r, .err msg)
  | _ => []

namespace State

/-- The batches whose embed task has ended, in order of dispatch, with how it ended. -/
def ended (s : State V) : List (List Item × EmbedOutcome V) := s.dispatched.zip s.outcomes

/-- The batches whose replies have all been sent. -/
def finished (s : State V) : List (List Item × EmbedOutcome V) :=
  if s.phase.unsent = [] then s.ended else s.ended.dropLast

/-- The answers to the batches whose embed task has ended. -/
def endedAnswers (g : List UInt32 → V) (s : State V) : List (ℕ × Reply V) :=
  s.ended.flatMap fun p => answers g p.1 p.2

/-- The replies that arrived on a reply channel. -/
def repliesTo (s : State V) (r : ℕ) : List (Reply V) :=
  (s.replies.filter fun p => decide (p.1 = r)).map Prod.snd

end State

theorem unsent_scatter_cons (r n : ℕ) (todo : List (ℕ × ℕ)) (vecs : List V) :
    (Phase.scatter ((r, n) :: todo) vecs).unsent =
      (r, .ok (vecs.take n)) :: (Phase.scatter todo (vecs.drop n)).unsent := by
  simp [Phase.unsent]

theorem answers_map_fst (g : List UInt32 → V) (kept : List Item) (o : EmbedOutcome V) :
    (answers g kept o).map Prod.fst = kept.map Item.reply := by
  simp [answers]

/-- Draining the vectors of a batch by the counts of its items gives each item its own vectors. -/
theorem splitLengths_texts (g : List UInt32 → V) (kept : List Item) :
    (kept.map Item.nTexts).splitLengths ((texts kept).map g) =
      kept.map fun item => item.tokenIds.map g := by
  induction kept with
  | nil => rfl
  | cons item kept ih =>
    have htexts : (texts (item :: kept)).map g =
        item.tokenIds.map g ++ (texts kept).map g := by
      simp [texts]
    have hlength : item.nTexts = (item.tokenIds.map g).length := (List.length_map _).symm
    rw [htexts, List.map_cons, List.splitLengths_cons, List.map_cons, hlength, List.take_left,
      List.drop_left, ih]

theorem length_texts (kept : List Item) : (texts kept).length = (kept.map Item.nTexts).sum := by
  rw [texts, List.length_flatMap]
  rfl

/-- After the embed task the worker has to send the answers to the batch. -/
theorem unsent_afterEmbed (g : List UInt32 → V) (kept : List Item) (o : EmbedOutcome V)
    (hg : ∀ vecs, o = .ok vecs → vecs.length = (texts kept).length → vecs = (texts kept).map g) :
    (afterEmbed (kept.map Item.nTexts) (kept.map Item.reply) (texts kept).length o).unsent =
      answers g kept o := by
  cases o with
  | ok vecs =>
    by_cases hlen : vecs.length = (texts kept).length
    · obtain rfl := hg vecs rfl hlen
      have hzip : ((kept.map Item.reply).zip (kept.map Item.nTexts)) =
          kept.map fun item => (item.reply, item.nTexts) := List.zip_map' ..
      rw [afterEmbed, if_neg (not_not.mpr hlen), hzip]
      simp only [Phase.unsent, List.map_map, Function.comp_def]
      rw [splitLengths_texts g kept, List.map_map, List.zip_map']
      simp only [answers, answer, List.length_map, ne_eq, not_true_eq_false, if_false]
      rfl
    · rw [afterEmbed, if_pos hlen]
      simp only [Phase.unsent, answers, answer, if_pos (show vecs.length ≠ _ from hlen),
        List.map_map, Function.comp_def]
  | err msg => simp [afterEmbed, Phase.unsent, answers, answer]
  | panic e => simp [afterEmbed, Phase.unsent, answers, answer]

/-! ### The invariant of the replies -/

/-- What the worker has sent, and what it still has to send, are the answers to the dispatched
batches whose embed task has ended. -/
structure Delivery (g : List UInt32 → V) (s : State V) : Prop where
  infer : ∀ counts replies ids, s.phase = .infer counts replies ids →
    ∃ front kept, s.dispatched = front ++ [kept] ∧ s.outcomes.length = front.length ∧
      counts = kept.map Item.nTexts ∧ replies = kept.map Item.reply ∧ ids = texts kept
  ended : (∀ counts replies ids, s.phase ≠ .infer counts replies ids) →
    s.outcomes.length = s.dispatched.length
  inBounds : ∀ todo vecs, s.phase = .scatter todo vecs →
    (todo.map Prod.snd).sum ≤ vecs.length
  notPanicked : s.phase ≠ .panicked
  sent : ∃ done, done ++ s.phase.unsent = s.endedAnswers g ∧ s.replies.Sublist done ∧
    ∀ p ∈ done, p.1 ∉ s.cancelled → p ∈ s.replies
  last : s.phase.unsent ≠ [] → ∃ front kept o, s.ended = front ++ [(kept, o)] ∧
    s.phase.unsent <:+ answers g kept o

private theorem zip_concat {α β : Type} {l : List α} {m : List β} {x : α}
    (h : m.length = l.length) : (l ++ [x]).zip m = l.zip m := by
  calc (l ++ [x]).zip m = (l ++ [x]).zip (m ++ []) := by rw [List.append_nil]
    _ = l.zip m ++ [x].zip [] := List.zip_append h.symm
    _ = l.zip m := by rw [List.zip_nil_right, List.append_nil]

/-- The phases in which no batch has been dispatched and not been answered. -/
def Phase.Quiet : Phase V → Prop
  | .recvFirst | .fill .. | .retain .. | .stopped => True
  | _ => False

theorem Phase.Quiet.ne_infer {p : Phase V} (h : p.Quiet) (counts replies : List ℕ)
    (ids : List (List UInt32)) : p ≠ .infer counts replies ids := by
  rintro rfl
  exact h

theorem Phase.Quiet.unsent {p : Phase V} (h : p.Quiet) : p.unsent = [] := by
  cases p <;> first | rfl | exact h.elim

namespace Delivery

variable {g : List UInt32 → V} {s s' : State V}

/-- A step to a quiet phase, with nothing left to send. -/
theorem quiet (h : Delivery g s) (hp : s.phase.unsent = [])
    (hi : ∀ counts replies ids, s.phase ≠ .infer counts replies ids) (hp' : s'.phase.Quiet)
    (hd : s'.dispatched = s.dispatched) (ho : s'.outcomes = s.outcomes)
    (hr : s'.replies = s.replies) (hc : s'.cancelled = s.cancelled) : Delivery g s' := by
  have hended : s'.ended = s.ended := by rw [State.ended, State.ended, hd, ho]
  refine ⟨fun _ _ _ hi' => absurd hi' (hp'.ne_infer _ _ _), fun _ => ?_, fun todo vecs hp'' => ?_,
    fun hp'' => ?_, ?_, fun hne => absurd hp'.unsent hne⟩
  · rw [hd, ho]
    exact h.ended hi
  · rw [hp''] at hp'
    exact hp'.elim
  · rw [hp''] at hp'
    exact hp'.elim
  · rw [hp'.unsent, State.endedAnswers, hended, hr, hc, ← hp]
    exact h.sent

/-- A step that leaves the worker where it is. -/
theorem frame (h : Delivery g s) (hp : s'.phase = s.phase) (hd : s'.dispatched = s.dispatched)
    (ho : s'.outcomes = s.outcomes) (hr : s'.replies = s.replies)
    (hc : s.cancelled ⊆ s'.cancelled) : Delivery g s' := by
  have hended : s'.ended = s.ended := by rw [State.ended, State.ended, hd, ho]
  refine ⟨?_, ?_, ?_, ?_, ?_, ?_⟩
  · rw [hp, hd, ho]
    exact h.infer
  · rw [hp, hd, ho]
    exact h.ended
  · rw [hp]
    exact h.inBounds
  · rw [hp]
    exact h.notPanicked
  · obtain ⟨done, hdone, hsub, hlive⟩ := h.sent
    rw [hp, State.endedAnswers, hended, hr]
    exact ⟨done, hdone, hsub, fun p hp hn => hlive p hp fun hm => hn (hc hm)⟩
  · rw [hp, hended]
    exact h.last

/-- A step that sends the first reply that is unsent. -/
theorem send (h : Delivery g s) {r : ℕ} {x : Reply V}
    (hp : s.phase.unsent = (r, x) :: s'.phase.unsent)
    (hi : ∀ counts replies ids, s'.phase ≠ .infer counts replies ids)
    (hb : ∀ todo vecs, s'.phase = .scatter todo vecs → (todo.map Prod.snd).sum ≤ vecs.length)
    (hn : s'.phase ≠ .panicked) (hi' : ∀ counts replies ids, s.phase ≠ .infer counts replies ids)
    (hd : s'.dispatched = s.dispatched) (ho : s'.outcomes = s.outcomes)
    (hr : s'.replies = if r ∈ s.cancelled then s.replies else s.replies ++ [(r, x)])
    (hc : s'.cancelled = s.cancelled) : Delivery g s' := by
  have hended : s'.ended = s.ended := by rw [State.ended, State.ended, hd, ho]
  obtain ⟨done, hdone, hsub, hlive⟩ := h.sent
  refine ⟨fun _ _ _ hp' => absurd hp' (hi _ _ _), fun _ => ?_, hb, hn,
    ⟨done ++ [(r, x)], ?_, ?_, ?_⟩, fun _ => ?_⟩
  · rw [hd, ho]
    exact h.ended hi'
  · rw [State.endedAnswers, hended, List.append_assoc, List.singleton_append, ← hp]
    exact hdone
  · rw [hr]
    split
    · exact hsub.trans (List.sublist_append_left _ _)
    · exact hsub.append (List.Sublist.refl _)
  · intro p hmem hlive'
    rw [hc] at hlive'
    rw [hr]
    rcases List.mem_append.mp hmem with hmem | hmem
    · have hold := hlive p hmem hlive'
      split
      · exact hold
      · exact List.mem_append_left _ hold
    · obtain rfl := List.mem_singleton.mp hmem
      rw [if_neg hlive']
      exact List.mem_append_right _ hmem
  · obtain ⟨front, kept, o, heq, hsuffix⟩ := h.last (by rw [hp]; exact List.cons_ne_nil _ _)
    rw [hp] at hsuffix
    exact ⟨front, kept, o, hended.trans heq, (List.suffix_cons _ _).trans hsuffix⟩

/-- The step that dispatches a batch. -/
theorem dispatch (h : Delivery g s) (hp : s.phase.Quiet) {kept : List Item}
    (hp' : s'.phase = .infer (kept.map Item.nTexts) (kept.map Item.reply) (texts kept))
    (hd : s'.dispatched = s.dispatched ++ [kept]) (ho : s'.outcomes = s.outcomes)
    (hr : s'.replies = s.replies) (hc : s'.cancelled = s.cancelled) : Delivery g s' := by
  have hlength := h.ended hp.ne_infer
  have hended : s'.ended = s.ended := by
    rw [State.ended, hd, ho, zip_concat hlength, State.ended]
  have hunsent : s'.phase.unsent = [] := by
    rw [hp']
    rfl
  refine ⟨fun counts replies ids hi => ?_, fun hi => absurd hp' (hi _ _ _), fun todo vecs hi => ?_,
    fun hi => ?_, ?_, fun hne => absurd hunsent hne⟩
  · rw [hp', Phase.infer.injEq] at hi
    obtain ⟨rfl, rfl, rfl⟩ := hi
    exact ⟨s.dispatched, kept, hd, by rw [ho, hlength], rfl, rfl, rfl⟩
  · rw [hp'] at hi
    cases hi
  · rw [hp'] at hi
    cases hi
  · rw [hunsent, State.endedAnswers, hended, hr, hc, ← hp.unsent]
    exact h.sent

/-- The step that ends the embed task. -/
theorem embedDone (h : Delivery g s) {counts replies : List ℕ} {ids : List (List UInt32)}
    {o : EmbedOutcome V} (hp : s.phase = .infer counts replies ids)
    (hg : ∀ vecs, o = .ok vecs → vecs.length = ids.length → vecs = ids.map g)
    (hp' : s'.phase = afterEmbed counts replies ids.length o)
    (hd : s'.dispatched = s.dispatched) (ho : s'.outcomes = s.outcomes ++ [o])
    (hr : s'.replies = s.replies) (hc : s'.cancelled = s.cancelled) : Delivery g s' := by
  obtain ⟨front, kept, hfront, hlength, rfl, rfl, rfl⟩ := h.infer _ _ _ hp
  have hended : s.ended = front.zip s.outcomes := by
    rw [State.ended, hfront, zip_concat hlength]
  have hended' : s'.ended = s.ended ++ [(kept, o)] := by
    rw [hended, State.ended, hd, hfront, ho, List.zip_append hlength.symm]
    rfl
  have hunsent : s'.phase.unsent = answers g kept o := by
    rw [hp']
    exact unsent_afterEmbed g kept o hg
  have hphase := afterEmbed_eq (kept.map Item.nTexts) (kept.map Item.reply) (texts kept).length o
  rw [← hp'] at hphase
  refine ⟨fun _ _ _ hi => ?_, fun _ => ?_, fun todo vecs hi => ?_, fun hi => ?_, ?_,
    fun _ => ⟨s.ended, kept, o, hended', hunsent ▸ List.suffix_refl _⟩⟩
  · rcases hphase with ⟨msg, h⟩ | ⟨vecs, -, -, h⟩ <;> cases h.symm.trans hi
  · rw [hd, ho, hfront, List.length_append, List.length_append, hlength]
    rfl
  · rcases hphase with ⟨msg, h⟩ | ⟨vecs, -, hlen, h⟩ <;> cases h.symm.trans hi
    rw [List.map_snd_zip (by simp), hlen, length_texts]
  · rcases hphase with ⟨msg, h⟩ | ⟨vecs, -, -, h⟩ <;> cases h.symm.trans hi
  · obtain ⟨done, hdone, hsub, hlive⟩ := h.sent
    have hnone : s.phase.unsent = [] := by
      rw [hp]
      rfl
    rw [hnone, List.append_nil] at hdone
    refine ⟨done, ?_, hr ▸ hsub, hr ▸ hc ▸ hlive⟩
    rw [hunsent, State.endedAnswers, hended', List.flatMap_append, hdone, State.endedAnswers]
    simp

end Delivery

variable [RatioArith F] {cfg : BatcherConfig F} {g : List UInt32 → V} {s s' : State V}
  {a : Action V}

/-- **Step lemma.** Every step whose call of `embed_fn` is pointwise keeps the invariant. -/
theorem Delivery.step (h : Delivery g s) (hg : Pointwise g s a)
    (hstep : Batcher.step cfg s a = some s') : Delivery g s' := by
  have hquiet {p : Phase V} (hp : s.phase = p) (hq : p.Quiet) : s.phase.Quiet := hp ▸ hq
  cases trans_of_step hstep with
  | takeCarry hp | takeFirst hp | stop hp | saturate hp | drained hp | defer hp | join hp
  | drop hp | keep hp | restart hp | deadline hp =>
    have hq := hquiet hp trivial
    exact h.quiet hq.unsent hq.ne_infer trivial rfl rfl rfl rfl
  | skip hp =>
    have hq := hquiet hp trivial
    exact h.quiet hq.unsent hq.ne_infer hq rfl rfl rfl rfl
  | dispatch hp => exact h.dispatch (hquiet hp trivial) rfl rfl rfl rfl rfl
  | @sendOk r n todo vecs hp hn =>
    have hsum := h.inBounds _ _ hp
    simp only [List.map_cons, List.sum_cons] at hsum
    refine h.send (r := r) (x := .ok (vecs.take n)) ?_ nofun ?_ nofun (by simp [hp]) rfl rfl rfl rfl
    · rw [hp]
      exact unsent_scatter_cons r n todo vecs
    · rintro todo' vecs' hp'
      cases hp'
      rw [List.length_drop]
      omega
  | @drainPanic r n todo vecs hp hn =>
    -- the counts of the items add up to the number of vectors
    have hsum := h.inBounds _ _ hp
    simp only [List.map_cons, List.sum_cons] at hsum
    omega
  | scattered hp | fanned hp =>
    exact h.quiet (by simp [hp, Phase.unsent]) (by simp [hp]) trivial rfl rfl rfl rfl
  | @sendErr r rs msg hp =>
    refine h.send (r := r) (x := .err msg) ?_ nofun nofun nofun (by simp [hp]) rfl rfl rfl rfl
    rw [hp]
    rfl
  | embedDone o hp =>
    refine h.embedDone hp (fun vecs ho hlen => ?_) rfl rfl rfl rfl rfl
    subst ho
    simp only [Pointwise, hp] at hg
    exact hg hlen
  | submitEmpty | submitFull | submitChecked | sendFull | enqueue | close =>
    exact h.frame rfl rfl rfl rfl (List.Subset.refl _)
  | cancel => exact h.frame rfl rfl rfl rfl (List.subset_cons_self _ _)

/-- **Run lemma.** The invariant holds in every reachable state. -/
theorem delivery_of_reachable (hs : (machine V cfg).Reachable (Pointwise g) s) :
    Delivery g s := by
  refine hs.invariant ?_ fun s a s' h hg hstep => h.step hg hstep
  rintro _ ⟨-, rfl⟩
  refine ⟨nofun, fun _ => rfl, nofun, nofun, ⟨[], rfl, List.Sublist.refl _, nofun⟩, fun hne => ?_⟩
  exact absurd rfl hne

/-! ### Sending makes progress -/

/-- The steps of the worker. -/
def Action.isWorker : Action V → Bool
  | .worker => true
  | _ => false

theorem Action.eq_worker {a : Action V} (h : a.isWorker = true) : a = .worker := by
  cases a <;> first | rfl | cases h

/-- What a step does to the replies that are unsent: the worker sends the first one, or the embed
task of another batch ends, or nothing. -/
theorem unsent_step (h : Delivery g s) (hg : Pointwise g s a)
    (hstep : Batcher.step cfg s a = some s') :
    (s'.ended = s.ended ∧
      (s'.phase.unsent = s.phase.unsent ∧ (s.phase.unsent ≠ [] → a ≠ .worker) ∨
        ∃ p, s.phase.unsent = p :: s'.phase.unsent)) ∨
    (s.phase.unsent = [] ∧ ∃ kept o, s'.ended = s.ended ++ [(kept, o)] ∧
      s'.phase.unsent = answers g kept o) := by
  have hnone {p : Phase V} (hp : s.phase = p) (hq : p.unsent = []) (hq' : s'.phase.unsent = []) :
      s'.phase.unsent = s.phase.unsent ∧ (s.phase.unsent ≠ [] → a ≠ .worker) := by
    rw [hp, hq, hq']
    exact ⟨rfl, fun hne => absurd rfl hne⟩
  cases trans_of_step hstep with
  | takeCarry hp | takeFirst hp | stop hp | saturate hp | drained hp | defer hp | join hp
  | drop hp | keep hp | restart hp | deadline hp | fanned hp | scattered hp =>
    exact .inl ⟨rfl, .inl (hnone hp rfl rfl)⟩
  | skip hp => exact .inl ⟨rfl, .inl (hnone hp rfl (congrArg Phase.unsent hp))⟩
  | @dispatch kept hp =>
    have hlength := h.ended (by simp [hp])
    refine .inl ⟨?_, .inl (hnone hp rfl rfl)⟩
    simp only [State.ended, zip_concat hlength]
  | @sendOk r n todo vecs hp =>
    refine .inl ⟨rfl, .inr ⟨(r, .ok (vecs.take n)), ?_⟩⟩
    rw [hp]
    exact unsent_scatter_cons r n todo vecs
  | drainPanic => exact absurd rfl (h.step hg hstep).notPanicked
  | @sendErr r rs msg hp =>
    refine .inl ⟨rfl, .inr ⟨(r, .err msg), ?_⟩⟩
    rw [hp]
    rfl
  | @embedDone counts replies ids o hp =>
    obtain ⟨front, kept, hfront, hlength, rfl, rfl, rfl⟩ := h.infer _ _ _ hp
    refine .inr ⟨by rw [hp]; rfl, kept, o, ?_, unsent_afterEmbed g kept o ?_⟩
    · simp only [State.ended]
      rw [hfront, zip_concat hlength, List.zip_append hlength.symm]
      rfl
    · rintro vecs rfl hlen
      simp only [Pointwise, hp] at hg
      exact hg hlen
  | submitEmpty | submitFull | submitChecked | sendFull | enqueue | close | cancel =>
    exact .inl ⟨rfl, .inl ⟨rfl, fun _ => nofun⟩⟩

/-- A batch that is finished stays finished. -/
theorem finished_mono (h : Delivery g s) (hg : Pointwise g s a)
    (hstep : Batcher.step cfg s a = some s') : s.finished <+: s'.finished := by
  rcases unsent_step h hg hstep with ⟨hended, ⟨hunsent, -⟩ | ⟨p, hp⟩⟩ | ⟨hnone, kept, o, hended, -⟩
  · rw [State.finished, State.finished, hunsent, hended]
  · have hne : s.phase.unsent ≠ [] := hp ▸ List.cons_ne_nil _ _
    rw [State.finished, if_neg hne, State.finished, hended]
    split
    · exact List.dropLast_prefix _
    · exact List.prefix_refl _
  · rw [State.finished, if_pos hnone, State.finished, hended, List.dropLast_concat]
    split
    · exact List.prefix_append _ _
    · exact List.prefix_refl _

/-- Along every continuation of a run, after as many steps of the worker as replies are unsent,
the batches whose embed task had ended are finished. -/
theorem finished_of_path (hs : (machine V cfg).Reachable (Pointwise g) s) {as : List (Action V)}
    (hp : (machine V cfg).Path (Pointwise g) s as s')
    (hcount : s.phase.unsent.length ≤ as.countP Action.isWorker) :
    s.ended <+: s'.finished := by
  have hprogress : s.ended <+: s'.finished ∨ s'.ended = s.ended ∧
      s'.phase.unsent.length + as.countP Action.isWorker ≤
        s.phase.unsent.length := by
    clear hcount
    induction hp with
    | nil => exact .inr ⟨rfl, Nat.le_refl _⟩
    | @snoc s₁ s₂ a as hp hg hstep ih =>
      have h := delivery_of_reachable (hs.path hp)
      rcases ih with hdone | ⟨hended, hlen⟩
      · exact .inl (hdone.trans (finished_mono h hg hstep))
      · rw [List.countP_append, List.countP_singleton]
        rcases unsent_step h hg hstep with
          ⟨hended', ⟨hunsent, hworker⟩ | ⟨p, hp⟩⟩ | ⟨hnone, kept, o, hended', -⟩
        · by_cases hne : s₁.phase.unsent = []
          · left
            rw [State.finished, hunsent, if_pos hne, hended', hended]
          · right
            refine ⟨hended'.trans hended, ?_⟩
            have hnot : ¬ a.isWorker = true := fun ha => hworker hne (Action.eq_worker ha)
            rw [hunsent, if_neg hnot]
            exact hlen
        · right
          refine ⟨hended'.trans hended, ?_⟩
          rw [hp, List.length_cons] at hlen
          split <;> omega
        · left
          have hfinished := finished_mono h hg hstep
          rwa [State.finished, if_pos hnone, hended] at hfinished
  rcases hprogress with hdone | ⟨hended, hlen⟩
  · exact hdone
  · have hnone : s'.phase.unsent = [] := List.length_eq_zero_iff.mp (by omega)
    rw [State.finished, if_pos hnone, hended]

/-! ### Who receives what -/

private theorem zip_fst_initial {α β : Type} (l : List α) (m : List β) :
    (l.zip m).map Prod.fst <+: l := by
  induction l generalizing m with
  | nil => exact List.prefix_refl _
  | cons x l ih =>
    cases m with
    | nil => exact List.nil_prefix
    | cons y m =>
      rw [List.zip_cons_cons, List.map_cons]
      exact List.cons_prefix_cons.mpr ⟨rfl, ih m⟩

private theorem filter_key {β : Type} {l : List (ℕ × β)} {p : ℕ × β}
    (hnodup : (l.map Prod.fst).Nodup) (hp : p ∈ l) :
    (l.filter fun q => decide (q.1 = p.1)) = [p] := by
  induction l with
  | nil => cases hp
  | cons q l ih =>
    rw [List.map_cons, List.nodup_cons] at hnodup
    rcases List.mem_cons.mp hp with rfl | hp
    · have hrest : (l.filter fun q => decide (q.1 = p.1)) = [] :=
        List.filter_eq_nil_iff.mpr fun q hq heq =>
          hnodup.1 (of_decide_eq_true heq ▸ List.mem_map_of_mem hq)
      rw [List.filter_cons_of_pos (by simp), hrest]
    · have hne : ¬ decide (q.1 = p.1) = true := fun heq =>
        hnodup.1 (of_decide_eq_true heq ▸ List.mem_map_of_mem hp)
      rw [List.filter_cons, if_neg hne]
      exact ih hnodup.2 hp

omit [RatioArith F] in
/-- The live requesters of a finished batch have their answers. -/
theorem Delivery.mem_replies (h : Delivery g s) {kept : List Item} {o : EmbedOutcome V}
    (hf : (kept, o) ∈ s.finished) {item : Item} (hi : item ∈ kept)
    (hc : item.reply ∉ s.cancelled) :
    (item.reply, answer g (texts kept).length item o) ∈ s.replies := by
  obtain ⟨done, hdone, -, hlive⟩ := h.sent
  have hmem : (item.reply, answer g (texts kept).length item o) ∈ answers g kept o :=
    List.mem_map_of_mem hi
  refine hlive _ ?_ hc
  rw [State.finished] at hf
  split at hf
  · rw [‹s.phase.unsent = []›, List.append_nil] at hdone
    rw [hdone]
    exact List.mem_flatMap.mpr ⟨_, hf, hmem⟩
  · -- only the answers to the last batch are not all sent
    obtain ⟨front, kept', o', hended, ⟨d, hd⟩⟩ := h.last ‹_›
    rw [hended, List.dropLast_concat] at hf
    rw [State.endedAnswers, hended, List.flatMap_append, List.flatMap_singleton, ← hd,
      ← List.append_assoc] at hdone
    rw [List.append_cancel_right hdone]
    exact List.mem_append_left _ (List.mem_flatMap.mpr ⟨_, hf, hmem⟩)

/-- Every request is dispatched in at most one batch. -/
theorem dispatched_nodup {C : State V → Action V → Prop} (hs : (machine V cfg).Reachable C s) :
    (s.dispatched.flatten.map Item.reply).Nodup := by
  have hsub : s.dispatched.flatten.Sublist (s.dispatched.flatten ++ s.waiting) :=
    List.sublist_append_left _ _
  have horder : s.dispatched.flatten ++ s.waiting = s.accepted.filter (· ∉ s.skipped) :=
    (fifo_conserved hs).order
  rw [horder] at hsub
  exact (numbered_of_reachable hs).nodup_accepted.sublist
    ((hsub.trans List.filter_sublist).map Item.reply)

/-- No reply channel receives two replies. -/
theorem replies_nodup (hs : (machine V cfg).Reachable (Pointwise g) s) :
    (s.replies.map Prod.fst).Nodup := by
  obtain ⟨done, hdone, hsub, -⟩ := (delivery_of_reachable hs).sent
  -- the requests answered are those of the dispatched batches, once each
  have hkeys : (s.endedAnswers g).map Prod.fst =
      ((s.ended.map Prod.fst).flatten).map Item.reply := by
    rw [State.endedAnswers, List.map_flatMap, List.map_flatten, List.map_map, List.flatMap_def]
    simp only [answers_map_fst, Function.comp_def]
  have hbatches : ((s.ended.map Prod.fst).flatten).Sublist s.dispatched.flatten :=
    (zip_fst_initial _ _).sublist.flatten
  have hall : ((s.endedAnswers g).map Prod.fst).Nodup := by
    rw [hkeys]
    exact (dispatched_nodup hs).sublist (hbatches.map _)
  rw [← hdone] at hall
  exact hall.sublist ((hsub.trans (List.sublist_append_left _ _)).map _)

/-- Who receives what, when `embed_fn` maps every text by `g`. -/
structure Transparent (cfg : BatcherConfig F) (g : List UInt32 → V) (s : State V) : Prop where
  /-- A live requester of a finished batch has received one reply: its own texts mapped by `g`
  in its own order, or the error of the call. -/
  answered : ∀ kept o, (kept, o) ∈ s.finished → ∀ item ∈ kept, item.reply ∉ s.cancelled →
    s.repliesTo item.reply = [answer g (texts kept).length item o]
  /-- Every reply answers an item of a batch whose embed task has ended. -/
  only : ∀ p ∈ s.replies, ∃ kept o, (kept, o) ∈ s.ended ∧ p ∈ answers g kept o
  /-- No request is in two dispatched batches. -/
  once : (s.dispatched.flatten.map Item.reply).Nodup
  /-- The last dispatched batch waits for its embed task, however that ends. -/
  embedding : s.outcomes.length < s.dispatched.length →
    ∀ o, ∃ s', (machine V cfg).step s (.embedDone o) = some s' ∧ s'.outcomes = s.outcomes ++ [o]
  /-- While replies are unsent the worker can send the next one. -/
  sending : s.phase.unsent ≠ [] → ∃ s', (machine V cfg).step s .worker = some s' ∧
    s.phase.unsent.tail = s'.phase.unsent
  /-- After as many steps of the worker as replies are unsent, the batches whose embed task has
  ended are finished. -/
  delivered : ∀ as s', (machine V cfg).Path (Pointwise g) s as s' →
    s.phase.unsent.length ≤ as.countP Action.isWorker → s.ended <+: s'.finished

/-- **Batching is transparent.** Under every configuration and on every schedule, when `embed_fn`
maps every text by `g`, a live requester of a dispatched batch receives one reply, which depends on
its own texts and on how the call ended, and no other requester receives one. -/
theorem transparent_of_reachable (cfg : BatcherConfig F) (g : List UInt32 → V)
    (hs : (machine V cfg).Reachable (Pointwise g) s) : Transparent cfg g s where
  answered kept o hf item hi hc := by
    have hmem := (delivery_of_reachable hs).mem_replies hf hi hc
    rw [State.repliesTo, filter_key (replies_nodup hs) hmem]
    rfl
  only p hp := by
    obtain ⟨done, hdone, hsub, -⟩ := (delivery_of_reachable hs).sent
    have hmem : p ∈ s.endedAnswers g := hdone ▸ List.mem_append_left _ (hsub.subset hp)
    obtain ⟨⟨kept, o⟩, hended, hp⟩ := List.mem_flatMap.mp hmem
    exact ⟨kept, o, hended, hp⟩
  once := dispatched_nodup hs
  embedding hlt o := by
    have h := delivery_of_reachable hs
    by_cases hp : ∃ counts replies ids, s.phase = .infer counts replies ids
    · obtain ⟨counts, replies, ids, hp⟩ := hp
      simp only [machine, step, hp]
      exact ⟨_, rfl, rfl⟩
    · have hlength := h.ended fun counts replies ids heq => hp ⟨counts, replies, ids, heq⟩
      omega
  sending hne := by
    have h := delivery_of_reachable hs
    cases hp : s.phase with
    | scatter todo vecs =>
      cases todo with
      | nil =>
        rw [hp] at hne
        exact absurd rfl hne
      | cons p todo =>
        have hsum := h.inBounds _ _ hp
        simp only [List.map_cons, List.sum_cons] at hsum
        have hn : p.2 ≤ vecs.length := by omega
        simp only [machine, step, workerStep, hp, if_pos hn]
        exact ⟨_, rfl, congrArg List.tail (unsent_scatter_cons p.1 p.2 todo vecs)⟩
    | fanErr replies msg =>
      cases replies with
      | nil =>
        rw [hp] at hne
        exact absurd rfl hne
      | cons r rs =>
        simp only [machine, step, workerStep, hp]
        exact ⟨_, rfl, rfl⟩
    | recvFirst | fill | retain | infer | stopped | panicked =>
      rw [hp] at hne
      exact absurd rfl hne
  delivered as s' hp := finished_of_path hs hp

/-- Two requests are coalesced and one of them is cancelled during the call; the call for a third
request returns too few vectors. -/
theorem transparent_coalesced :
    ∃ s, (machine ℕ pairConfig).Reachable (Pointwise List.length) s ∧
      s.repliesTo 0 = [.ok [2]] ∧ s.repliesTo 1 = [] ∧
      s.repliesTo 2 = [.err "embed_fn returned 1 vectors for 2 texts"] ∧
      Transparent pairConfig List.length s := by
  obtain ⟨s, hs, h0, h1, h2⟩ :
      ∃ s ∈ (machine ℕ pairConfig).runUnder (Pointwise List.length) start
        [.submit [[7, 8]], .submit [[9]], .submit [[4], [5]],
          .trySend ⟨0, [[7, 8]], by decide⟩, .trySend ⟨1, [[9]], by decide⟩,
          .trySend ⟨2, [[4], [5]], by decide⟩,
          .worker, .worker, .worker, .worker, .worker, .worker, .cancel 1,
          .embedDone (.ok [2, 1]), .worker, .worker, .worker,
          .worker, .worker, .worker, .worker, .embedDone (.ok [6]), .worker, .worker],
        s.repliesTo 0 = [.ok [2]] ∧ s.repliesTo 1 = [] ∧
          s.repliesTo 2 = [.err "embed_fn returned 1 vectors for 2 texts"] := by
    decide +kernel
  have hreach : (machine ℕ pairConfig).Reachable (Pointwise List.length) s :=
    .of_runUnder ⟨by decide, rfl⟩ hs
  exact ⟨s, hreach, h0, h1, h2, transparent_of_reachable pairConfig List.length hreach⟩

end OxEmbed.Batcher

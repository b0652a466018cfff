import Mathlib.Data.List.Basic
import Mathlib.Data.Rat.Cast.Order
import Mathlib.Tactic.Simps.Basic
import OxEmbed.Library.Machine
import OxEmbed.Library.Text

/-!
# The dynamic batcher

The batcher of `batcher.rs`: producers put tokenised requests into a bounded channel, and one
worker coalesces them into batches under a token budget, runs `embed_fn` once for each batch, and
scatters the vectors back over the reply channels of the requests.

The worker runs between await points and calls nothing that waits except `rx.recv`, the timer of
the fill loop and the embed task. Its `Phase` is the head of the outer loop, the head of the fill
loop, the pass of `retain`, the await of the embed task, or the loop that sends the replies. A
requester can drop its receiver between any two steps, so the liveness of each item is read by a
step of its own. When the timer of the fill loop elapses, and what the embed task returns, are
choices of the schedule.

A request is known by the number of its reply channel; each call of `embed_tokens` makes a new
one. The fields `returned`, `accepted`, `skipped`, `deferred`, `formed`, `dispatched` and
`outcomes` of a state are history variables: no step reads them.

## Main definitions

* `Item`, `BatcherConfig`, `BatchAccum` : the data, with the admission gates.
* `Phase`, `State`, `Action` : the worker's program point, the batcher, the choices of a schedule.
* `step`, `machine` : one step, and the batcher as a machine.
* `Trans` : what a step can do, one constructor for each branch of the source.

## Main results

* `trans_of_step` : every step is one of the transitions `Trans`.
-/

namespace OxEmbed.Batcher

open Text (usizeMax)

/-! ### Items and the batch accumulator -/

/-- `usize::saturating_mul`. -/
def saturatingMul (a b : ℕ) : ℕ := min (a * b) usizeMax

/-- The longest of some token sequences, `0` when there is none. -/
def longest (texts : List (List UInt32)) : ℕ := (texts.map List.length).foldr max 0

/-- The number of tokens in some token sequences. -/
def tokenCount (texts : List (List UInt32)) : ℕ := (texts.map List.length).sum

/-- A request in the channel or in a batch. An empty request never becomes an `Item`. -/
structure Item where
  /-- The number of the reply channel. -/
  reply : ℕ
  /-- The token ids of each text of the request. -/
  tokenIds : List (List UInt32)
  tokenIds_ne : tokenIds ≠ []
  deriving DecidableEq

namespace Item

def nTexts (item : Item) : ℕ := item.tokenIds.length

def maxSeqLen (item : Item) : ℕ := longest item.tokenIds

def totalTokens (item : Item) : ℕ := tokenCount item.tokenIds

end Item

/-- The texts of a batch, in the order in which `dispatch_batch` flattens them. -/
def texts (batch : List Item) : List (List UInt32) := batch.flatMap Item.tokenIds

/-- The operations on `f64` that the length-ratio gate uses. -/
class RatioArith (F : Type) where
  zero : F
  /-- The cast of a `usize`. -/
  ofUsize : ℕ → F
  mul : F → F → F
  gt : F → F → Bool

/-- Exact arithmetic. -/
instance RatioArith.exact (K : Type) [Semiring K] [LinearOrder K] : RatioArith K where
  zero := 0
  ofUsize n := n
  mul := (· * ·)
  gt a b := decide (b < a)

/-- The configuration of a batcher. -/
structure BatcherConfig (F : Type) where
  name : String
  maxQueue : UInt64
  maxBatchTokens : UInt64
  maxBatchItems : UInt64
  maxBatchSeq : UInt64
  paddedModel : Bool
  lengthRatioThreshold : F

/-- The running aggregate over the items admitted into a batch. -/
structure BatchAccum where
  /-- The number of texts. -/
  items : ℕ
  /-- The longest token sequence. -/
  maxLen : ℕ
  /-- The sum of all token lengths. -/
  totalTokens : ℕ
  deriving DecidableEq

namespace BatchAccum

/-- `BatchAccum::default()`. -/
def empty : BatchAccum := ⟨0, 0, 0⟩

def push (accum : BatchAccum) (item : Item) : BatchAccum where
  items := accum.items + item.nTexts
  maxLen := max accum.maxLen item.maxSeqLen
  totalTokens := accum.totalTokens + item.totalTokens

variable {F : Type} (cfg : BatcherConfig F) (accum : BatchAccum) (item : Item)

/-- The gate of the items cap and of the token budget. -/
def fits : Bool :=
  let newItems := accum.items + item.nTexts
  if newItems > cfg.maxBatchItems.toNat then false
  else
    let newMax := max accum.maxLen item.maxSeqLen
    let totalIfAdded :=
      if cfg.paddedModel then saturatingMul newMax newItems
      else accum.totalTokens + item.totalTokens
    decide (totalIfAdded < cfg.maxBatchTokens.toNat)

/-- The gate of the sequence cap. -/
def seqCappedBy : Bool := decide (max accum.maxLen item.maxSeqLen > cfg.maxBatchSeq.toNat)

/-- The gate of the length ratio. -/
def lengthRatioOverflow [RatioArith F] : Bool :=
  cfg.paddedModel && RatioArith.gt cfg.lengthRatioThreshold RatioArith.zero
    && decide (accum.items > 0) && decide (accum.maxLen > 0)
    && RatioArith.gt (RatioArith.ofUsize item.maxSeqLen)
      (RatioArith.mul (RatioArith.ofUsize accum.maxLen) cfg.lengthRatioThreshold)

/-- One of the three gates defers the item to the next batch. -/
def overflows [RatioArith F] : Bool :=
  decide (accum.items > 0) && accum.seqCappedBy cfg item
    || accum.lengthRatioOverflow cfg item
    || !accum.fits cfg item

/-- No further item can be admitted: the fill loop stops waiting. -/
def saturated : Bool :=
  decide (accum.items ≥ cfg.maxBatchItems.toNat)
    || cfg.paddedModel
      && decide (saturatingMul accum.maxLen accum.items ≥ cfg.maxBatchTokens.toNat)
    || !cfg.paddedModel && decide (accum.totalTokens ≥ cfg.maxBatchTokens.toNat)

end BatchAccum

/-! ### The worker and the batcher -/

/-- What a requester receives on its reply channel. -/
inductive Reply (V : Type)
  | ok (vecs : List V)
  | err (msg : String)
  deriving DecidableEq, Repr

/-- Errors returned by `embed_tokens`. -/
inductive BatchError
  | queueFull (batcherName : String)
  | inference (msg : String)
  | shutdown
  deriving DecidableEq, Repr

/-- How the task that runs `embed_fn` ends. -/
inductive EmbedOutcome (V : Type)
  | ok (vecs : List V)
  | err (msg : String)
  /-- The task panicked; `e` is the text of the join error. -/
  | panic (e : String)
  deriving DecidableEq, Repr

/-- The program point of the worker, with its local variables. -/
inductive Phase (V : Type)
  /-- At the head of the outer loop. -/
  | recvFirst
  /-- At the head of the fill loop. -/
  | fill (accum : BatchAccum) (batch : List Item)
  /-- In `batch.retain`: the items kept so far and the items not looked at yet. -/
  | retain (kept todo : List Item)
  /-- In `dispatch_batch`, awaiting the embed task. -/
  | infer (counts replies : List ℕ) (ids : List (List UInt32))
  /-- In `dispatch_batch`, handing out the vectors by draining `vecs`. -/
  | scatter (todo : List (ℕ × ℕ)) (vecs : List V)
  /-- In `fan_err`. -/
  | fanErr (replies : List ℕ) (msg : String)
  /-- The worker left its outer loop. -/
  | stopped
  /-- The worker panicked: `vecs.drain(..n)` was out of range. -/
  | panicked
  deriving DecidableEq

/-- The worker has ended and dropped the receiver of the channel. -/
def Phase.Over {V : Type} : Phase V → Bool
  | .stopped | .panicked => true
  | _ => false

/-- The state of a batcher. -/
structure State (V : Type) where
  phase : Phase V
  channel : List Item
  /-- The sender was dropped. -/
  closed : Bool
  carry : Option Item
  carryPending : Bool
  /-- The producers between the depth check and `try_send`, with their items. -/
  checked : List Item
  /-- The number of the next call. -/
  nextCall : ℕ
  /-- The requesters that dropped their receiver. -/
  cancelled : List ℕ
  /-- What was delivered on the reply channels. -/
  replies : List (ℕ × Reply V)
  /-- History: the calls that returned without waiting for a reply. -/
  returned : List (ℕ × Except BatchError (List V))
  /-- History: the items put into the channel. -/
  accepted : List Item
  /-- History: the cancelled items that the worker left out. -/
  skipped : List Item
  /-- History: the deferred items, each with the number of the batch it was deferred from. -/
  deferred : List (Item × ℕ)
  /-- History: the batches that left the fill loop. -/
  formed : List (List Item)
  /-- History: the batches given to `dispatch_batch`. -/
  dispatched : List (List Item)
  /-- History: how the embed task of each dispatched batch ended. -/
  outcomes : List (EmbedOutcome V)

/-- The actions of a schedule. -/
inductive Action (V : Type)
  /-- The worker performs its next step. -/
  | worker
  /-- The timer of the fill loop elapses. -/
  | deadline
  /-- The embed task ends. -/
  | embedDone (o : EmbedOutcome V)
  /-- A producer calls `embed_tokens` and checks the depth of the queue. -/
  | submit (tokenIds : List (List UInt32))
  /-- A producer past the depth check calls `try_send`. -/
  | trySend (item : Item)
  /-- A requester drops its receiver. -/
  | cancel (reply : ℕ)
  /-- The sender is dropped. -/
  | close
  deriving DecidableEq

variable {F V : Type}

namespace State

variable (s : State V)

/-- `item.reply.is_closed()`. -/
def isClosed (item : Item) : Bool := decide (item.reply ∈ s.cancelled)

/-- `sender.capacity()`. -/
def capacity (cfg : BatcherConfig F) : ℕ := cfg.maxQueue.toNat - s.channel.length

/-- The depth of the queue as `embed_tokens` computes it. -/
def depth (cfg : BatcherConfig F) : ℕ := cfg.maxQueue.toNat - s.capacity cfg

@[simps] def beginBatch (first : Item) : State V :=
  { s with phase := .fill (BatchAccum.empty.push first) [first] }

/-- Leave the fill loop with a batch. -/
@[simps] def leaveFill (batch : List Item) : State V :=
  { s with phase := .retain [] batch, formed := s.formed ++ [batch] }

/-- Put an item into the carry slot. -/
@[simps] def defer (item : Item) : State V :=
  { s with
    carry := some item
    carryPending := true
    deferred := s.deferred ++ [(item, s.formed.length)] }

/-- Leave out a cancelled item. -/
@[simps] def skip (item : Item) : State V :=
  { s with skipped := s.skipped ++ [item] }

/-- `let _ = reply.send(x)`: nothing arrives when the receiver was dropped. -/
@[simps] def send (r : ℕ) (x : Reply V) : State V :=
  { s with replies := if r ∈ s.cancelled then s.replies else s.replies ++ [(r, x)] }

/-- A call returns without waiting for a reply. -/
def refuse (r : ℕ) (x : Except BatchError (List V)) : State V :=
  { s with returned := s.returned ++ [(r, x)] }

end State

/-! ### One step -/

/-- The next step of the worker. -/
def workerStep [RatioArith F] (cfg : BatcherConfig F) (s : State V) : Option (State V) :=
  match s.phase with
  | .recvFirst =>
    match s.carry with
    | some c => some ({ s with carry := none, carryPending := false }.beginBatch c)
    | none =>
      match s.channel with
      | i :: rest => some ({ s with channel := rest }.beginBatch i)
      | [] => if s.closed then some { s with phase := .stopped } else none
  | .fill accum batch =>
    if accum.saturated cfg then some (s.leaveFill batch)
    else
      match s.channel with
      | [] => if s.closed then some (s.leaveFill batch) else none
      | item :: rest =>
        if s.isClosed item then some ({ s with channel := rest }.skip item)
        else if accum.overflows cfg item then
          some (({ s with channel := rest }.defer item).leaveFill batch)
        else
          some { s with channel := rest, phase := .fill (accum.push item) (batch ++ [item]) }
  | .retain kept (item :: todo) =>
    if s.isClosed item then some ({ s with phase := .retain kept todo }.skip item)
    else some { s with phase := .retain (kept ++ [item]) todo }
  | .retain [] [] => some { s with phase := .recvFirst }
  | .retain kept [] =>
    some { s with
      phase := .infer (kept.map Item.nTexts) (kept.map Item.reply) (texts kept)
      dispatched := s.dispatched ++ [kept] }
  | .scatter ((r, n) :: todo) vecs =>
    if n ≤ vecs.length then
      some ({ s with phase := .scatter todo (vecs.drop n) }.send r (.ok (vecs.take n)))
    else some { s with phase := .panicked }
  | .scatter [] _ => some { s with phase := .recvFirst }
  | .fanErr (r :: rs) msg => some ({ s with phase := .fanErr rs msg }.send r (.err msg))
  | .fanErr [] _ => some { s with phase := .recvFirst }
  | .infer .. | .stopped | .panicked => none

/-- What `dispatch_batch` does with the end of the embed task. -/
def afterEmbed (counts replies : List ℕ) (total : ℕ) : EmbedOutcome V → Phase V
  | .ok vecs =>
    if vecs.length ≠ total then
      .fanErr replies s!"embed_fn returned {vecs.length} vectors for {total} texts"
    else .scatter (replies.zip counts) vecs
  | .err msg => .fanErr replies msg
  | .panic e => .fanErr replies s!"embed task panicked: {e}"

/-- After the embed task the worker hands out the vectors or an error. -/
theorem afterEmbed_eq (counts replies : List ℕ) (total : ℕ) (o : EmbedOutcome V) :
    (∃ msg, afterEmbed counts replies total o = .fanErr replies msg) ∨
      ∃ vecs, o = .ok vecs ∧ vecs.length = total ∧
        afterEmbed counts replies total o = .scatter (replies.zip counts) vecs := by
  cases o with
  | ok vecs =>
    by_cases hlen : vecs.length = total
    · exact .inr ⟨vecs, rfl, hlen, if_neg (not_not.mpr hlen)⟩
    · exact .inl ⟨_, if_pos hlen⟩
  | err msg => exact .inl ⟨msg, rfl⟩
  | panic e => exact .inl ⟨_, rfl⟩

/-- It is at no other point of its loop. -/
theorem afterEmbed_ne {counts replies : List ℕ} {total : ℕ} {o : EmbedOutcome V} {p : Phase V}
    (herr : ∀ replies msg, .fanErr replies msg ≠ p)
    (hscatter : ∀ todo vecs, .scatter todo vecs ≠ p) :
    afterEmbed counts replies total o ≠ p := by
  rcases afterEmbed_eq counts replies total o with ⟨msg, h⟩ | ⟨vecs, -, -, h⟩ <;> rw [h]
  · exact herr _ _
  · exact hscatter _ _

/-- One step of the batcher. -/
def step [RatioArith F] (cfg : BatcherConfig F) (s : State V) : Action V → Option (State V)
  | .worker => workerStep cfg s
  | .deadline =>
    match s.phase with
    | .fill accum batch => if accum.saturated cfg then none else some (s.leaveFill batch)
    | _ => none
  | .embedDone o =>
    match s.phase with
    | .infer counts replies ids =>
      some { s with
        phase := afterEmbed counts replies ids.length o
        outcomes := s.outcomes ++ [o] }
    | _ => none
  | .submit tokenIds =>
    if s.closed then none
    else
      let s' := { s with nextCall := s.nextCall + 1 }
      if h : tokenIds = [] then some (s'.refuse s.nextCall (.ok []))
      else if s.depth cfg ≥ saturatingMul cfg.maxQueue.toNat 8 / 10 then
        some (s'.refuse s.nextCall (.error (.queueFull cfg.name)))
      else some { s' with checked := s.checked ++ [⟨s.nextCall, tokenIds, h⟩] }
  | .trySend item =>
    if item ∈ s.checked then
      let s' := { s with checked := s.checked.erase item }
      if s.phase.Over ∨ s.capacity cfg = 0 then
        some (s'.refuse item.reply (.error (.queueFull cfg.name)))
      else some { s' with channel := s.channel ++ [item], accepted := s.accepted ++ [item] }
    else none
  | .cancel r =>
    if r ∈ s.accepted.map Item.reply then some { s with cancelled := r :: s.cancelled } else none
  | .close =>
    -- `shutdown` takes the batcher by value: no producer is inside `embed_tokens`' send
    if s.checked = [] then some { s with closed := true } else none

/-- A batcher right after its construction. -/
def start : State V where
  phase := .recvFirst
  channel := []
  closed := false
  carry := none
  carryPending := false
  checked := []
  nextCall := 0
  cancelled := []
  replies := []
  returned := []
  accepted := []
  skipped := []
  deferred := []
  formed := []
  dispatched := []
  outcomes := []

/-- The batcher as a machine. A channel of capacity `0` cannot be built. -/
def machine (V : Type) [RatioArith F] (cfg : BatcherConfig F) :
    Machine (State V) (Action V) where
  Init s := 0 < cfg.maxQueue.toNat ∧ s = start
  step := step cfg

/-! ### What a step can do -/

/-- What one step can do, one constructor for each branch of the source. -/
inductive Trans [RatioArith F] (cfg : BatcherConfig F) (s : State V) :
    Action V → State V → Prop
  | takeCarry {c} (hp : s.phase = .recvFirst) (hc : s.carry = some c) :
      Trans cfg s .worker ({ s with carry := none, carryPending := false }.beginBatch c)
  | takeFirst {i rest} (hp : s.phase = .recvFirst) (hc : s.carry = none)
      (hq : s.channel = i :: rest) :
      Trans cfg s .worker ({ s with channel := rest }.beginBatch i)
  | stop (hp : s.phase = .recvFirst) (hc : s.carry = none) (hq : s.channel = [])
      (hcl : s.closed = true) : Trans cfg s .worker { s with phase := .stopped }
  | saturate {accum batch} (hp : s.phase = .fill accum batch)
      (hs : accum.saturated cfg = true) : Trans cfg s .worker (s.leaveFill batch)
  | drained {accum batch} (hp : s.phase = .fill accum batch)
      (hs : accum.saturated cfg = false) (hq : s.channel = []) (hcl : s.closed = true) :
      Trans cfg s .worker (s.leaveFill batch)
  | skip {accum batch item rest} (hp : s.phase = .fill accum batch)
      (hs : accum.saturated cfg = false) (hq : s.channel = item :: rest)
      (hc : s.isClosed item = true) :
      Trans cfg s .worker ({ s with channel := rest }.skip item)
  | defer {accum batch item rest} (hp : s.phase = .fill accum batch)
      (hs : accum.saturated cfg = false) (hq : s.channel = item :: rest)
      (hc : s.isClosed item = false) (ho : accum.overflows cfg item = true) :
      Trans cfg s .worker (({ s with channel := rest }.defer item).leaveFill batch)
  | join {accum batch item rest} (hp : s.phase = .fill accum batch)
      (hs : accum.saturated cfg = false) (hq : s.channel = item :: rest)
      (hc : s.isClosed item = false) (ho : accum.overflows cfg item = false) :
      Trans cfg s .worker
        { s with channel := rest, phase := .fill (accum.push item) (batch ++ [item]) }
  | drop {kept item todo} (hp : s.phase = .retain kept (item :: todo))
      (hc : s.isClosed item = true) :
      Trans cfg s .worker ({ s with phase := .retain kept todo }.skip item)
  | keep {kept item todo} (hp : s.phase = .retain kept (item :: todo))
      (hc : s.isClosed item = false) :
      Trans cfg s .worker { s with phase := .retain (kept ++ [item]) todo }
  | restart (hp : s.phase = .retain [] []) : Trans cfg s .worker { s with phase := .recvFirst }
  | dispatch {kept} (hp : s.phase = .retain kept []) (hk : kept ≠ []) :
      Trans cfg s .worker
        { s with
          phase := .infer (kept.map Item.nTexts) (kept.map Item.reply) (texts kept)
          dispatched := s.dispatched ++ [kept] }
  | sendOk {r n todo vecs} (hp : s.phase = .scatter ((r, n) :: todo) vecs)
      (hn : n ≤ vecs.length) :
      Trans cfg s .worker
        ({ s with phase := .scatter todo (vecs.drop n) }.send r (.ok (vecs.take n)))
  | drainPanic {r n todo vecs} (hp : s.phase = .scatter ((r, n) :: todo) vecs)
      (hn : vecs.length < n) : Trans cfg s .worker { s with phase := .panicked }
  | scattered {vecs} (hp : s.phase = .scatter [] vecs) :
      Trans cfg s .worker { s with phase := .recvFirst }
  | sendErr {r rs msg} (hp : s.phase = .fanErr (r :: rs) msg) :
      Trans cfg s .worker ({ s with phase := .fanErr rs msg }.send r (.err msg))
  | fanned {msg} (hp : s.phase = .fanErr [] msg) :
      Trans cfg s .worker { s with phase := .recvFirst }
  | deadline {accum batch} (hp : s.phase = .fill accum batch)
      (hs : accum.saturated cfg = false) : Trans cfg s .deadline (s.leaveFill batch)
  | embedDone {counts replies ids} (o : EmbedOutcome V) (hp : s.phase = .infer counts replies ids) :
      Trans cfg s (.embedDone o)
        { s with
          phase := afterEmbed counts replies ids.length o
          outcomes := s.outcomes ++ [o] }
  | submitEmpty (hcl : s.closed = false) :
      Trans cfg s (.submit [])
        ({ s with nextCall := s.nextCall + 1 }.refuse s.nextCall (.ok []))
  | submitFull {tokenIds} (hcl : s.closed = false) (hne : tokenIds ≠ [])
      (hd : saturatingMul cfg.maxQueue.toNat 8 / 10 ≤ s.depth cfg) :
      Trans cfg s (.submit tokenIds)
        ({ s with nextCall := s.nextCall + 1 }.refuse s.nextCall
          (.error (.queueFull cfg.name)))
  | submitChecked {tokenIds} (hcl : s.closed = false) (hne : tokenIds ≠ [])
      (hd : s.depth cfg < saturatingMul cfg.maxQueue.toNat 8 / 10) :
      Trans cfg s (.submit tokenIds)
        { s with
          nextCall := s.nextCall + 1
          checked := s.checked ++ [⟨s.nextCall, tokenIds, hne⟩] }
  | sendFull {item} (hi : item ∈ s.checked) (hf : s.phase.Over = true ∨ s.capacity cfg = 0) :
      Trans cfg s (.trySend item)
        ({ s with checked := s.checked.erase item }.refuse item.reply
          (.error (.queueFull cfg.name)))
  | enqueue {item} (hi : item ∈ s.checked) (ho : s.phase.Over = false)
      (hc : s.capacity cfg ≠ 0) :
      Trans cfg s (.trySend item)
        { s with
          checked := s.checked.erase item
          channel := s.channel ++ [item]
          accepted := s.accepted ++ [item] }
  | cancel {r} (hr : r ∈ s.accepted.map Item.reply) :
      Trans cfg s (.cancel r) { s with cancelled := r :: s.cancelled }
  | close (hc : s.checked = []) : Trans cfg s .close { s with closed := true }

variable [RatioArith F] {cfg : BatcherConfig F} {s s' : State V} {a : Action V}

private theorem trans_of_workerStep (h : workerStep cfg s = some s') : Trans cfg s .worker s' := by
  simp only [workerStep] at h
  split at h
  · split at h
    · cases h
      exact .takeCarry ‹_› ‹_›
    · split at h
      · cases h
        exact .takeFirst ‹_› ‹_› ‹_›
      · split at h <;> cases h
        exact .stop ‹_› ‹_› ‹_› ‹_›
  · split at h
    · cases h
      exact .saturate ‹_› ‹_›
    · have hs := Bool.eq_false_iff.mpr ‹_›
      split at h
      · split at h <;> cases h
        exact .drained ‹_› hs ‹_› ‹_›
      · split at h
        · cases h
          exact .skip ‹_› hs ‹_› ‹_›
        · have hc := Bool.eq_false_iff.mpr ‹_›
          split at h <;> cases h
          · exact .defer ‹_› hs ‹_› hc ‹_›
          · exact .join ‹_› hs ‹_› hc (Bool.eq_false_iff.mpr ‹_›)
  · split at h <;> cases h
    · exact .drop ‹_› ‹_›
    · exact .keep ‹_› (Bool.eq_false_iff.mpr ‹_›)
  · cases h
    exact .restart ‹_›
  · rename_i kept hne hp
    cases h
    exact .dispatch hp fun hk => hne hk
  · split at h <;> cases h
    · exact .sendOk ‹_› ‹_›
    · exact .drainPanic ‹_› (Nat.not_le.mp ‹_›)
  · cases h
    exact .scattered ‹_›
  · cases h
    exact .sendErr ‹_›
  · cases h
    exact .fanned ‹_›
  all_goals cases h

/-- Every step is one of the transitions `Trans`. -/
theorem trans_of_step (h : step cfg s a = some s') : Trans cfg s a s' := by
  cases a with
  | worker => exact trans_of_workerStep h
  | deadline =>
    simp only [step] at h
    split at h
    · split at h <;> cases h
      exact .deadline ‹_› (Bool.eq_false_iff.mpr ‹_›)
    · cases h
  | embedDone o =>
    simp only [step] at h
    split at h <;> cases h
    exact .embedDone o ‹_›
  | submit tokenIds =>
    simp only [step] at h
    split at h
    · cases h
    · have hcl := Bool.eq_false_iff.mpr ‹_›
      split at h
      · subst tokenIds
        cases h
        exact .submitEmpty hcl
      · split at h <;> cases h
        · exact .submitFull hcl ‹_› ‹_›
        · exact .submitChecked hcl ‹_› (Nat.not_le.mp ‹_›)
  | trySend item =>
    simp only [step] at h
    split at h
    · split at h <;> rename_i hf <;> cases h
      · exact .sendFull ‹_› hf
      · obtain ⟨ho, hc⟩ := not_or.mp hf
        exact .enqueue ‹_› (Bool.eq_false_iff.mpr ho) hc
    · cases h
  | cancel r =>
    simp only [step] at h
    split at h <;> cases h
    exact .cancel ‹_›
  | close =>
    simp only [step] at h
    split at h <;> cases h
    exact .close ‹_›

end OxEmbed.Batcher

import Mathlib.Data.List.Induction
import Mathlib.Data.Option.Basic

/-!
# Labelled machines and their guarded runs

A *machine* has initial states and a partial step function: `step s a` is the state after the
action `a`, and `none` when `a` is not enabled. All choices of a schedule (which thread moves
next, what a callee returns, when a timer fires) are part of the action, so a step is a function
and a run can be evaluated.

A *guarded run* takes only steps that meet a condition `C` on the state before the step and the
action. Assumptions on the environment are such conditions, and so is the exact condition under
which a property holds in every state of a run.

## Main definitions

* `Machine` : initial states and a partial step function.
* `Machine.Reachable` : the states of the guarded runs from an initial state.
* `Machine.Path` : the guarded runs between two states.
* `Machine.runUnder` : the evaluation of a guarded run.

## Main results

* `Machine.Reachable.invariant` : a property that holds initially and is kept by every guarded
  step holds in every reachable state.
* `Machine.Path.guard_iff` : a run is guarded by a condition when each of its steps meets it.
* `Machine.Reachable.of_runUnder` : evaluating a guarded run proves its end state reachable.
* `Machine.Simulation.reachable` : a simulation maps reachable states to reachable states.
-/

namespace OxEmbed

universe u v u' v'

/-- A machine: initial states and a partial step function. -/
structure Machine (σ : Type u) (α : Type v) where
  /-- The initial states. -/
  Init : σ → Prop
  /-- The state after an action, or `none` when the action is not enabled. -/
  step : σ → α → Option σ

namespace Machine

variable {σ : Type u} {α : Type v} (M : Machine σ α)

/-- The states reached from an initial state by steps that meet the condition `C`. -/
inductive Reachable (C : σ → α → Prop) : σ → Prop
  | init {s : σ} (h : M.Init s) : Reachable C s
  | step {s s' : σ} {a : α} (hs : Reachable C s) (hC : C s a) (h : M.step s a = some s') :
      Reachable C s'

/-- The runs from one state to another whose steps meet the condition `C`, with their actions. -/
inductive Path (C : σ → α → Prop) (s : σ) : List α → σ → Prop
  | nil : Path C s [] s
  | snoc {s₁ s₂ : σ} {a : α} {as : List α} (hp : Path C s as s₁) (hC : C s₁ a)
      (h : M.step s₁ a = some s₂) : Path C s (as ++ [a]) s₂

variable {M} {C D : σ → α → Prop} {s s' : σ}

/-- **Invariant rule.** A property of the initial states that every guarded step keeps holds in
every reachable state. -/
theorem Reachable.invariant {P : σ → Prop} (hs : M.Reachable C s)
    (hinit : ∀ s, M.Init s → P s)
    (hstep : ∀ s a s', P s → C s a → M.step s a = some s' → P s') : P s := by
  induction hs with
  | init h => exact hinit _ h
  | step _ hC h ih => exact hstep _ _ _ ih hC h

/-- The invariant rule relative to facts already known of reachable states. -/
theorem Reachable.invariant_of_reachable {P : σ → Prop} (hs : M.Reachable C s)
    (hinit : ∀ s, M.Init s → P s)
    (hstep : ∀ s a s', M.Reachable C s → P s → C s a → M.step s a = some s' → P s') : P s := by
  induction hs with
  | init h => exact hinit _ h
  | step hs hC h ih => exact hstep _ _ _ hs ih hC h

/-- A condition that every enabled step of a guarded run meets may replace its guard. -/
theorem Reachable.strengthen (hs : M.Reachable C s)
    (h : ∀ s a s', M.Reachable C s → C s a → M.step s a = some s' → D s a) : M.Reachable D s := by
  induction hs with
  | init h' => exact .init h'
  | step hs hC hstep ih => exact .step ih (h _ _ _ hs hC hstep) hstep

theorem Reachable.path (hs : M.Reachable C s) {as : List α} (hp : M.Path C s as s') :
    M.Reachable C s' := by
  induction hp with
  | nil => exact hs
  | snoc _ hC h ih => exact .step ih hC h

/-- Perform a list of actions that each meet the condition in the state before them. -/
def runUnder (M : Machine σ α) (C : σ → α → Prop) [∀ s a, Decidable (C s a)] (s : σ) :
    List α → Option σ
  | [] => some s
  | a :: as => if C s a then (M.step s a).bind fun s' => runUnder M C s' as else none

theorem Path.trans {s₁ : σ} {as bs : List α} (h₁ : M.Path C s as s₁) (h₂ : M.Path C s₁ bs s') :
    M.Path C s (as ++ bs) s' := by
  induction h₂ with
  | nil => rwa [List.append_nil]
  | snoc _ hC h ih => exact List.append_assoc as _ _ ▸ .snoc ih hC h

theorem Path.cons {s₁ : σ} {a : α} {as : List α} (hC : C s a) (h : M.step s a = some s₁)
    (hp : M.Path C s₁ as s') : M.Path C s (a :: as) s' :=
  Path.trans (.snoc .nil hC h) hp

/-- The guard of a run may be replaced by a weaker one. -/
theorem Path.mono {as : List α} (hp : M.Path C s as s') (h : ∀ s a, C s a → D s a) :
    M.Path D s as s' := by
  induction hp with
  | nil => exact .nil
  | snoc _ hC hstep ih => exact .snoc ih (h _ _ hC) hstep

/-- The guard of a run may be replaced by a condition that all its actions meet. -/
theorem Path.of_forall_mem {as : List α} (hp : M.Path C s as s') (h : ∀ a ∈ as, ∀ s, D s a) :
    M.Path D s as s' := by
  induction hp with
  | nil => exact .nil
  | snoc _ _ hstep ih =>
    exact .snoc (ih fun a ha => h a (List.mem_append_left _ ha))
      (h _ (List.mem_append_right _ (List.mem_singleton_self _)) _) hstep

/-- The last step of a run. -/
theorem Path.of_concat {as : List α} {a : α} (hp : M.Path C s (as ++ [a]) s') :
    ∃ s₁, M.Path C s as s₁ ∧ C s₁ a ∧ M.step s₁ a = some s' := by
  generalize heq : as ++ [a] = bs at hp
  cases hp with
  | nil => exact absurd heq (List.append_ne_nil_of_right_ne_nil as (List.cons_ne_nil a []))
  | @snoc s₁ _ b cs hp hC h =>
    obtain ⟨rfl, hab⟩ := List.append_inj' heq rfl
    obtain rfl := (List.cons.inj hab).1
    exact ⟨s₁, hp, hC, h⟩

/-- The state after a part of a run. -/
theorem Path.of_append {as bs : List α} (hp : M.Path C s (as ++ bs) s') :
    ∃ s₁, M.Path C s as s₁ ∧ M.Path C s₁ bs s' := by
  induction bs using List.reverseRecOn generalizing s' with
  | nil => exact ⟨s', List.append_nil as ▸ hp, .nil⟩
  | append_singleton bs b ih =>
    rw [← List.append_assoc] at hp
    obtain ⟨s₂, hp, hC, h⟩ := hp.of_concat
    obtain ⟨s₁, has, hbs⟩ := ih hp
    exact ⟨s₁, has, .snoc hbs hC h⟩

/-- Equal actions from one state lead to one state. -/
theorem Path.unique {s₁ s₂ : σ} {as : List α} (h₁ : M.Path C s as s₁) (h₂ : M.Path D s as s₂) :
    s₁ = s₂ := by
  induction h₁ generalizing s₂ with
  | nil =>
    generalize heq : [] = bs at h₂
    cases h₂ with
    | nil => rfl
    | snoc => exact absurd heq.symm (by simp)
  | snoc _ _ h ih =>
    obtain ⟨s₁', h₂, -, h'⟩ := h₂.of_concat
    obtain rfl := ih h₂
    exact Option.some.inj (h.symm.trans h')

/-- The last step of a run meets the guard, and so do those before it. -/
theorem Path.concat_iff {as : List α} {a : α} {s₁ : σ} (hp : M.Path C s as s₁)
    (h : M.step s₁ a = some s') : M.Path D s (as ++ [a]) s' ↔ M.Path D s as s₁ ∧ D s₁ a := by
  constructor
  · intro hD
    obtain ⟨s₂, hD, hguard, -⟩ := hD.of_concat
    obtain rfl := hp.unique hD
    exact ⟨hD, hguard⟩
  · rintro ⟨hD, hguard⟩
    exact .snoc hD hguard h

/-- **A run is guarded by a condition exactly when each of its steps meets it.** -/
theorem Path.guard_iff {as : List α} (hp : M.Path C s as s') :
    M.Path D s as s' ↔ ∀ pre a s₁ s₂, pre ++ [a] <+: as → M.Path C s pre s₁ →
      M.step s₁ a = some s₂ → D s₁ a := by
  constructor
  · rintro hD pre a s₁ s₂ ⟨post, rfl⟩ hpre h
    obtain ⟨s₃, hD, -⟩ := hD.of_append
    obtain ⟨s₁', hpre', hguard, -⟩ := hD.of_concat
    obtain rfl := hpre.unique hpre'
    exact hguard
  · intro hall
    induction hp with
    | nil => exact .nil
    | @snoc s₁ s₂ a as hp _ h ih =>
      refine .snoc (ih fun pre a s₁ s₂ hpre => ?_) (hall as a s₁ s₂ (List.prefix_refl _) hp h) h
      exact hall pre a s₁ s₂ (hpre.trans (List.prefix_append as [_]))

/-- Evaluating a guarded run gives a path. -/
theorem Path.of_runUnder [∀ s a, Decidable (C s a)] {as : List α}
    (h : M.runUnder C s as = some s') : M.Path C s as s' := by
  induction as generalizing s with
  | nil =>
    obtain rfl : s = s' := Option.some.inj h
    exact .nil
  | cons a as ih =>
    rw [runUnder] at h
    split at h
    · obtain ⟨s₁, h₁, h₂⟩ := Option.bind_eq_some_iff.mp h
      exact .cons ‹_› h₁ (ih h₂)
    · cases h

/-- Evaluating a guarded run from an initial state proves its end state reachable. -/
theorem Reachable.of_runUnder [∀ s a, Decidable (C s a)] {as : List α} (hs : M.Init s)
    (h : M.runUnder C s as = some s') : M.Reachable C s' :=
  (Reachable.init hs).path (.of_runUnder h)

/-! ### Simulations -/

variable {τ : Type u'} {β : Type v'}

/-- A simulation of the machine `M`, on its runs guarded by `C`, by the machine `N`: every
guarded step of `M` from related states is matched by no step or by one step of `N`. -/
structure Simulation (M : Machine σ α) (C : σ → α → Prop) (N : Machine τ β)
    (E : τ → β → Prop) where
  /-- The states of the two machines that correspond to each other. -/
  Rel : σ → τ → Prop
  init : ∀ s, M.Init s → ∃ t, N.Init t ∧ Rel s t
  step : ∀ s a s' t, M.Reachable C s → N.Reachable E t → Rel s t → C s a →
    M.step s a = some s' → Rel s' t ∨ ∃ b t', E t b ∧ N.step t b = some t' ∧ Rel s' t'

/-- Every reachable state of the simulated machine is related to a reachable state of the
simulating one. -/
theorem Simulation.reachable {N : Machine τ β} {E : τ → β → Prop}
    (R : Simulation M C N E) (hs : M.Reachable C s) : ∃ t, N.Reachable E t ∧ R.Rel s t := by
  induction hs with
  | init h =>
    obtain ⟨t, ht, hr⟩ := R.init _ h
    exact ⟨t, .init ht, hr⟩
  | step hs hC h ih =>
    obtain ⟨t, ht, hr⟩ := ih
    rcases R.step _ _ _ t hs ht hr hC h with hr' | ⟨b, t', hE, ht', hr'⟩
    · exact ⟨t, ht, hr'⟩
    · exact ⟨t', .step ht hE ht', hr'⟩

end Machine

end OxEmbed

import Mathlib.Data.List.Nodup
import Mathlib.Logic.Function.Basic
import OxEmbed.Library.Machine
import OxEmbed.Library.UnixPath
import OxEmbed.Startup.Config

/-!
# Launching the workers and routing to them

The startup of `main.rs` in multi-process mode: a worker is spawned for each entry of the three
lists of models, its supervisor waits for the worker's socket and connects to it, and the
supervisors are added to the pool in the order of the lists. The pool finds a supervisor by the name
of the model, and the socket of a worker is a file in one directory, named after the model.

The workers start concurrently. A worker removes a stale socket at its path before it binds, so a
second worker with the same path takes the socket over. Which file a path names (where its `..` and
its symbolic links lead) is up to the file system, so this is a parameter.

## Main definitions

* `WorkerKind`, `SpawnSpec`, `specs` : the workers of a configuration.
* `State`, `Action`, `step`, `machine` : the startup as a machine.
* `RoutedTo`, `KindCorrect` : where the requests for a model go.
* `SocketsApart` : no two entries of the lists share a socket.
* `SeparatesNames` : different names in a directory are different files.

## Main results

* `inv_of_reachable` : what the pool, the sockets and the clients hold.
* `kindCorrect_iff` : when all requests are routed to a worker of their own kind.
* `socketsApart_iff_nodup` : for names without a `/`, the names have to differ.
-/

namespace OxEmbed.Startup

open UnixPath (Component Plain components)

/-! ### The workers -/

inductive WorkerKind
  | embed
  | rerank
  | splade
  deriving DecidableEq, Repr

/-- The fields of a `SpawnSpec` that say which worker it is and where it listens. -/
structure SpawnSpec where
  model : String
  kind : WorkerKind
  socketDir : String
  deriving DecidableEq, Repr

/-- `socket_dir.join(format!("{}.sock", model))`, as components. -/
def SpawnSpec.socketPath (spec : SpawnSpec) : List Component :=
  components (UnixPath.join spec.socketDir.toList (spec.model ++ ".sock").toList)

/-- The workers of a configuration, in the order in which they are spawned. -/
def specs (cfg : Config) : List SpawnSpec :=
  cfg.models.map (fun m => ⟨m.name, .embed, cfg.workerSocketDir⟩) ++
    cfg.rerankers.map (fun r => ⟨r.name, .rerank, cfg.workerSocketDir⟩) ++
    cfg.splades.map fun s => ⟨s.name, .splade, cfg.workerSocketDir⟩

/-! ### The startup as a machine -/

/-- How far a call of `launch` is. -/
inductive LaunchPhase
  | pending
  /-- The worker process is started; waiting for a socket at its path. -/
  | polling
  /-- The client is connected to the worker `w`. -/
  | launched (w : ℕ)
  | failed
  deriving DecidableEq

/-- A worker process. -/
inductive WorkerPhase
  | absent
  | loading
  | listening
  deriving DecidableEq

/-- Workers and supervisors are named by their places in `specs`. -/
structure State where
  launch : ℕ → LaunchPhase
  worker : ℕ → WorkerPhase
  /-- The worker that has bound the socket at a file. -/
  sockets : List Component → Option ℕ
  /-- The number of results that have been collected. -/
  added : ℕ
  /-- The supervisors in the `WorkerPool`, by the names of their models. -/
  pool : String → Option ℕ
  /-- A launch failed, so the process exits. -/
  exited : Bool

inductive Action
  /-- `spawn_one` removes the file at the socket path and starts the worker. -/
  | spawn (i : ℕ)
  /-- The worker removes a stale socket and binds. -/
  | bind (i : ℕ)
  /-- `spawn_one` sees a socket and connects. -/
  | connect (i : ℕ)
  /-- The launch ends with an error. -/
  | fail (i : ℕ)
  /-- The next result is collected, and the supervisor is added to the pool. -/
  | collect
  deriving DecidableEq

-- The file that a path names.
variable (file : List Component → List Component) (cfg : Config)

def step (s : State) : Action → Option State
  | .spawn i =>
    match (specs cfg)[i]?, s.launch i with
    | some spec, .pending =>
      some { s with
        launch := Function.update s.launch i .polling
        worker := Function.update s.worker i .loading
        sockets := Function.update s.sockets (file spec.socketPath) none }
    | _, _ => none
  | .bind i =>
    match (specs cfg)[i]?, s.worker i with
    | some spec, .loading =>
      some { s with
        worker := Function.update s.worker i .listening
        sockets := Function.update s.sockets (file spec.socketPath) (some i) }
    | _, _ => none
  | .connect i =>
    match (specs cfg)[i]?, s.launch i with
    | some spec, .polling =>
      (s.sockets (file spec.socketPath)).map fun w =>
        { s with launch := Function.update s.launch i (.launched w) }
    | _, _ => none
  | .fail i =>
    match s.launch i with
    | .polling => some { s with launch := Function.update s.launch i .failed }
    | _ => none
  | .collect =>
    match (specs cfg)[s.added]?, s.launch s.added with
    | some spec, .launched _ =>
      some { s with
        pool := Function.update s.pool spec.model (some s.added)
        added := s.added + 1 }
    | some _, .failed => some { s with exited := true }
    | _, _ => none

/-- Before the workers are spawned. -/
def start : State where
  launch _ := .pending
  worker _ := .absent
  sockets _ := none
  added := 0
  pool _ := none
  exited := false

/-- The startup; nothing happens after the process has exited. -/
def machine : Machine State Action where
  Init s := s = start
  step s a := if s.exited then none else step file cfg s a

/-! ### Routing -/

/-- Requests for the model `name` go to a supervisor of a worker that was spawned with this kind and
name; its client is connected to that worker, over a socket that no other supervisor uses. -/
def RoutedTo (s : State) (kind : WorkerKind) (name : String) : Prop :=
  ∃ j spec, s.pool name = some j ∧ (specs cfg)[j]? = some spec ∧ spec.kind = kind ∧
    spec.model = name ∧ s.launch j = .launched j ∧
    ∀ k spec', (specs cfg)[k]? = some spec' → k ≠ j → file spec'.socketPath ≠ file spec.socketPath

/-- The requests for all configured models. -/
structure KindCorrect (s : State) : Prop where
  models : ∀ m ∈ cfg.models, RoutedTo file cfg s .embed m.name
  rerankers : ∀ r ∈ cfg.rerankers, RoutedTo file cfg s .rerank r.name
  splades : ∀ d ∈ cfg.splades, RoutedTo file cfg s .splade d.name

/-- The names of all entries, of the three lists together, give different socket files. -/
def SocketsApart : Prop := ((specs cfg).map fun spec => file spec.socketPath).Nodup

instance : Decidable (SocketsApart file cfg) := inferInstanceAs (Decidable (List.Nodup _))

variable {file cfg} {s s' : State} {a : Action} {i j : ℕ} {spec spec' : SpawnSpec}

theorem SocketsApart.eq_of_socketPath (h : SocketsApart file cfg) (hi : (specs cfg)[i]? = some spec)
    (hj : (specs cfg)[j]? = some spec') (hpath : file spec.socketPath = file spec'.socketPath) :
    i = j := by
  obtain ⟨hlt, -⟩ := List.getElem?_eq_some_iff.1 hi
  refine (List.getElem?_inj (by rwa [List.length_map]) h).1 ?_
  rw [List.getElem?_map, List.getElem?_map, hi, hj, Option.map_some, Option.map_some, hpath]

/-- All workers listen in the same directory. -/
theorem socketDir_eq (h : spec ∈ specs cfg) : spec.socketDir = cfg.workerSocketDir := by
  simp only [specs, List.mem_append, List.mem_map] at h
  rcases h with (⟨m, -, rfl⟩ | ⟨r, -, rfl⟩) | ⟨d, -, rfl⟩ <;> rfl

theorem socketPath_eq_of_model_eq (h : spec ∈ specs cfg) (h' : spec' ∈ specs cfg)
    (hmodel : spec.model = spec'.model) : spec.socketPath = spec'.socketPath := by
  rw [SpawnSpec.socketPath, SpawnSpec.socketPath, socketDir_eq h, socketDir_eq h', hmodel]

/-- The requests for all configured models are the requests for the entries of `specs`. -/
theorem kindCorrect_iff_specs :
    KindCorrect file cfg s ↔ ∀ spec ∈ specs cfg, RoutedTo file cfg s spec.kind spec.model := by
  constructor
  · rintro ⟨hmodels, hrerankers, hsplades⟩ spec hspec
    simp only [specs, List.mem_append, List.mem_map] at hspec
    rcases hspec with (⟨m, hm, rfl⟩ | ⟨r, hr, rfl⟩) | ⟨d, hd, rfl⟩
    · exact hmodels m hm
    · exact hrerankers r hr
    · exact hsplades d hd
  · intro h
    refine ⟨fun m hm => h ⟨m.name, .embed, cfg.workerSocketDir⟩ ?_,
      fun r hr => h ⟨r.name, .rerank, cfg.workerSocketDir⟩ ?_,
      fun d hd => h ⟨d.name, .splade, cfg.workerSocketDir⟩ ?_⟩
    · exact List.mem_append_left _ (List.mem_append_left _ (List.mem_map_of_mem hm))
    · exact List.mem_append_left _ (List.mem_append_right _ (List.mem_map_of_mem hr))
    · exact List.mem_append_right _ (List.mem_map_of_mem hd)

/-! ### What a step can do -/

/-- The branches of `step`. -/
inductive Trans (file : List Component → List Component) (cfg : Config) (s : State) :
    Action → State → Prop
  | spawn {i : ℕ} {spec : SpawnSpec} (hi : (specs cfg)[i]? = some spec)
      (hl : s.launch i = .pending) :
      Trans file cfg s (.spawn i) { s with
        launch := Function.update s.launch i .polling
        worker := Function.update s.worker i .loading
        sockets := Function.update s.sockets (file spec.socketPath) none }
  | bind {i : ℕ} {spec : SpawnSpec} (hi : (specs cfg)[i]? = some spec)
      (hw : s.worker i = .loading) :
      Trans file cfg s (.bind i) { s with
        worker := Function.update s.worker i .listening
        sockets := Function.update s.sockets (file spec.socketPath) (some i) }
  | connect {i w : ℕ} {spec : SpawnSpec} (hi : (specs cfg)[i]? = some spec)
      (hl : s.launch i = .polling) (hw : s.sockets (file spec.socketPath) = some w) :
      Trans file cfg s (.connect i) { s with launch := Function.update s.launch i (.launched w) }
  | fail {i : ℕ} (hl : s.launch i = .polling) :
      Trans file cfg s (.fail i) { s with launch := Function.update s.launch i .failed }
  | add {w : ℕ} {spec : SpawnSpec} (hi : (specs cfg)[s.added]? = some spec)
      (hl : s.launch s.added = .launched w) :
      Trans file cfg s .collect { s with
        pool := Function.update s.pool spec.model (some s.added)
        added := s.added + 1 }
  | exit (hl : s.launch s.added = .failed) : Trans file cfg s .collect { s with exited := true }

theorem trans_of_step (h : (machine file cfg).step s a = some s') : Trans file cfg s a s' := by
  have h : step file cfg s a = some s' := by
    rw [machine] at h
    dsimp only at h
    split at h
    · cases h
    · exact h
  cases a with
  | spawn i =>
    simp only [step] at h
    split at h
    next spec hi hl =>
      rw [← Option.some.inj h]
      exact .spawn hi hl
    · cases h
  | bind i =>
    simp only [step] at h
    split at h
    next spec hi hw =>
      rw [← Option.some.inj h]
      exact .bind hi hw
    · cases h
  | connect i =>
    simp only [step] at h
    split at h
    next spec hi hl =>
      obtain ⟨w, hw, rfl⟩ := Option.map_eq_some_iff.1 h
      exact .connect hi hl hw
    · cases h
  | fail i =>
    simp only [step] at h
    split at h
    next hl =>
      rw [← Option.some.inj h]
      exact .fail hl
    · cases h
  | collect =>
    simp only [step] at h
    split at h
    next spec w hi hl =>
      rw [← Option.some.inj h]
      exact .add hi hl
    next spec _ hi hl =>
      rw [← Option.some.inj h]
      exact .exit hl
    · cases h

/-! ### The invariant -/

/-- What the pool, the sockets and the clients hold. -/
structure Inv (file : List Component → List Component) (cfg : Config) (s : State) : Prop where
  added : s.added ≤ (specs cfg).length
  /-- A socket is bound by a worker of its file. -/
  sockets : ∀ p w, s.sockets p = some w →
    ∃ spec, (specs cfg)[w]? = some spec ∧ file spec.socketPath = p
  /-- A client is connected to a worker of its file. -/
  launched : ∀ i w, s.launch i = .launched w → ∃ spec spec', (specs cfg)[i]? = some spec ∧
    (specs cfg)[w]? = some spec' ∧ file spec'.socketPath = file spec.socketPath
  /-- The results that have been collected are successes. -/
  collected : ∀ i < s.added, ∃ w, s.launch i = .launched w
  /-- A name finds a supervisor that was added under it. -/
  pool : ∀ name j, s.pool name = some j → j < s.added ∧
    ∃ spec, (specs cfg)[j]? = some spec ∧ spec.model = name
  /-- Every supervisor that was added is found, or one that was added under its name. -/
  found : ∀ i < s.added, ∀ spec, (specs cfg)[i]? = some spec → (s.pool spec.model).isSome

theorem inv_start : Inv file cfg start where
  added := Nat.zero_le _
  sockets _ _ := nofun
  launched _ _ := nofun
  collected _ := nofun
  pool _ _ := nofun
  found _ := nofun

/-- Where a value of an updated function comes from. -/
theorem update_cases {α β : Type} [DecidableEq α] {f : α → β} {a b : α} {x y : β}
    (h : Function.update f a x b = y) : b = a ∧ x = y ∨ f b = y := by
  by_cases hb : b = a
  · subst hb
    rw [Function.update_self] at h
    exact .inl ⟨rfl, h⟩
  · rw [Function.update_of_ne hb] at h
    exact .inr h

/-- Updating a launch that has not ended keeps the successes collected before. -/
theorem collected_update {x : LaunchPhase} (hs : Inv file cfg s)
    (hi : ∀ w, s.launch i ≠ .launched w) :
    ∀ k < s.added, ∃ w, Function.update s.launch i x k = .launched w := by
  intro k hk
  obtain ⟨w, hw⟩ := hs.collected k hk
  have hki : k ≠ i := by
    rintro rfl
    exact hi w hw
  exact ⟨w, by rw [Function.update_of_ne hki, hw]⟩

theorem Inv.trans (hs : Inv file cfg s) (h : Trans file cfg s a s') : Inv file cfg s' := by
  cases h with
  | @spawn i spec hi hl =>
    refine { hs with sockets := fun p w hp => ?_, launched := fun k w hk => ?_, collected := ?_ }
    · rcases update_cases hp with ⟨-, hnone⟩ | hp
      · cases hnone
      · exact hs.sockets p w hp
    · rcases update_cases hk with ⟨-, hpolling⟩ | hk
      · cases hpolling
      · exact hs.launched k w hk
    · exact collected_update hs fun w hw => by rw [hl] at hw; cases hw
  | @bind i spec hi hw =>
    refine { hs with sockets := fun p w hp => ?_ }
    rcases update_cases hp with ⟨rfl, hbound⟩ | hp
    · obtain rfl := Option.some.inj hbound
      exact ⟨spec, hi, rfl⟩
    · exact hs.sockets p w hp
  | @connect i w spec hi hl hw =>
    refine { hs with launched := fun k w' hk => ?_, collected := ?_ }
    · rcases update_cases hk with ⟨rfl, hlaunched⟩ | hk
      · obtain rfl := LaunchPhase.launched.inj hlaunched
        obtain ⟨spec', hspec', hpath⟩ := hs.sockets _ _ hw
        exact ⟨spec, spec', hi, hspec', hpath⟩
      · exact hs.launched k w' hk
    · exact collected_update hs fun w hw => by rw [hl] at hw; cases hw
  | @fail i hl =>
    refine { hs with launched := fun k w hk => ?_, collected := ?_ }
    · rcases update_cases hk with ⟨-, hfailed⟩ | hk
      · cases hfailed
      · exact hs.launched k w hk
    · exact collected_update hs fun w hw => by rw [hl] at hw; cases hw
  | @add w spec hi hl =>
    obtain ⟨hlt, -⟩ := List.getElem?_eq_some_iff.1 hi
    refine { hs with added := hlt, collected := fun k hk => ?_, pool := fun name j hj => ?_,
                     found := fun k hk spec' hspec' => ?_ }
    · rcases Nat.lt_succ_iff_lt_or_eq.1 hk with hk | rfl
      · exact hs.collected k hk
      · exact ⟨w, hl⟩
    · rcases update_cases hj with ⟨rfl, hadded⟩ | hj
      · obtain rfl := Option.some.inj hadded
        exact ⟨Nat.lt_succ_self _, spec, hi, rfl⟩
      · obtain ⟨hlt, hspec⟩ := hs.pool name j hj
        exact ⟨Nat.lt_succ_of_lt hlt, hspec⟩
    · dsimp only
      by_cases hname : spec'.model = spec.model
      · rw [hname, Function.update_self]
        rfl
      · rw [Function.update_of_ne hname]
        rcases Nat.lt_succ_iff_lt_or_eq.1 hk with hk | rfl
        · exact hs.found k hk spec' hspec'
        · rw [hi] at hspec'
          rw [Option.some.inj hspec'] at hname
          exact absurd rfl hname
  | exit => exact { hs with }

/-- **What the pool, the sockets and the clients hold**, in every reachable state. -/
theorem inv_of_reachable {C : State → Action → Prop} (hs : (machine file cfg).Reachable C s) :
    Inv file cfg s := by
  refine hs.invariant (fun s h => ?_) fun _ _ _ hs _ h => hs.trans (trans_of_step h)
  rw [show s = start from h]
  exact inv_start

/-- **When the requests for all configured models are routed to a worker of their own kind**, after
all supervisors have been added, in whatever order the workers got ready, and wherever the file
system's paths lead. -/
theorem kindCorrect_iff {C : State → Action → Prop} (hs : (machine file cfg).Reachable C s)
    (hadded : s.added = (specs cfg).length) :
    KindCorrect file cfg s ↔ SocketsApart file cfg := by
  have hinv := inv_of_reachable hs
  rw [kindCorrect_iff_specs]
  constructor
  · intro hrouted
    refine List.nodup_iff_getElem?_ne_getElem?.2 fun i k hik hk hsame => ?_
    rw [List.length_map] at hk
    obtain ⟨spec, hi⟩ : ∃ spec, (specs cfg)[i]? = some spec :=
      ⟨_, List.getElem?_eq_getElem (by omega)⟩
    obtain ⟨spec', hk⟩ : ∃ spec', (specs cfg)[k]? = some spec' := ⟨_, List.getElem?_eq_getElem hk⟩
    rw [List.getElem?_map, List.getElem?_map, hi, hk, Option.map_some, Option.map_some] at hsame
    have hpath : file spec'.socketPath = file spec.socketPath := (Option.some.inj hsame).symm
    -- the supervisor that the name of `i` finds would share its socket with `i` or with `k`
    obtain ⟨j, found, -, hj, -, hmodel, -, halone⟩ := hrouted spec (List.mem_of_getElem? hi)
    have hfound : file found.socketPath = file spec.socketPath := congrArg file
      (socketPath_eq_of_model_eq (List.mem_of_getElem? hj) (List.mem_of_getElem? hi) hmodel)
    by_cases hij : i = j
    · exact halone k spec' hk (by omega) (hpath.trans hfound.symm)
    · exact halone i spec hi hij hfound.symm
  · intro hapart spec hspec
    obtain ⟨i, hi⟩ := List.getElem?_of_mem hspec
    obtain ⟨hlt, -⟩ := List.getElem?_eq_some_iff.1 hi
    obtain ⟨j, hj⟩ := Option.isSome_iff_exists.1 (hinv.found i (hadded ▸ hlt) spec hi)
    obtain ⟨-, spec', hspec', hmodel⟩ := hinv.pool _ _ hj
    -- two entries with one name would have one socket path
    obtain rfl : j = i := hapart.eq_of_socketPath hspec' hi
      (congrArg file (socketPath_eq_of_model_eq (List.mem_of_getElem? hspec') hspec hmodel))
    obtain rfl := Option.some.inj (hi.symm.trans hspec')
    obtain ⟨w, hw⟩ := hinv.collected j (hadded ▸ hlt)
    obtain ⟨spec₁, spec₂, h₁, h₂, hpath⟩ := hinv.launched j w hw
    obtain rfl := Option.some.inj (hi.symm.trans h₁)
    obtain rfl : w = j := hapart.eq_of_socketPath h₂ hi hpath
    exact ⟨w, spec, hj, hi, rfl, rfl, hw, fun k spec' hk hne hsame =>
      hne (hapart.eq_of_socketPath hk hi hsame)⟩

/-! ### Names -/

/-- A name without a `/` is the name of the socket file. -/
theorem plain_socketFile {name : String} (h : '/' ∉ name.toList) :
    Plain (name ++ ".sock").toList := by
  have hfile : (name ++ ".sock").toList = name.toList ++ ['.', 's', 'o', 'c', 'k'] :=
    String.toList_append
  rw [hfile]
  refine ⟨by simp [h], ?_⟩
  have hlen : (name.toList ++ ['.', 's', 'o', 'c', 'k']).length ≥ 5 := by simp
  rw [UnixPath.ofPiece, if_neg, if_neg]
  · rintro hdots
    rw [hdots] at hlen
    exact absurd hlen (by decide)
  · rintro (hnil | hdot)
    · rw [hnil] at hlen
      exact absurd hlen (by decide)
    · rw [hdot] at hlen
      exact absurd hlen (by decide)

/-- Different names in a directory are different files. -/
def SeparatesNames (file : List Component → List Component) : Prop :=
  ∀ dir x y : List Char, Plain x → Plain y →
    file (components (UnixPath.join dir x)) = file (components (UnixPath.join dir y)) → x = y

theorem separatesNames_id : SeparatesNames id := fun _ _ _ => UnixPath.join_inj

/-- Names without a `/` can be read off the socket files. -/
theorem model_eq_of_socketPath (hfile : SeparatesNames file) (h : spec ∈ specs cfg)
    (h' : spec' ∈ specs cfg) (hplain : '/' ∉ spec.model.toList)
    (hplain' : '/' ∉ spec'.model.toList)
    (hpath : file spec.socketPath = file spec'.socketPath) : spec.model = spec'.model := by
  rw [SpawnSpec.socketPath, SpawnSpec.socketPath, socketDir_eq h, socketDir_eq h'] at hpath
  have hname := hfile _ _ _ (plain_socketFile hplain) (plain_socketFile hplain') hpath
  rw [String.toList_append, String.toList_append] at hname
  exact String.toList_inj.1 (List.append_cancel_right hname)

/-- **For names without a `/`, the names of all entries have to differ**, in one list and across
the lists. -/
theorem socketsApart_iff_nodup (hfile : SeparatesNames file)
    (hplain : ∀ spec ∈ specs cfg, '/' ∉ spec.model.toList) :
    SocketsApart file cfg ↔ ((specs cfg).map SpawnSpec.model).Nodup := by
  rw [SocketsApart, List.Nodup, List.Nodup, List.pairwise_map, List.pairwise_map]
  refine List.Pairwise.iff_of_mem fun {spec spec'} h h' => not_congr ⟨fun hpath => ?_, fun hmodel =>
    congrArg file (socketPath_eq_of_model_eq h h' hmodel)⟩
  exact model_eq_of_socketPath hfile h h' (hplain _ h) (hplain _ h') hpath

/-! ### Two lists with one name -/

/-- Where paths lead in a file system without symbolic links. -/
def resolveDots (path : List Component) : List Component :=
  path.foldl (fun at' c =>
    match c, at'.getLast? with
    | .parentDir, some (.normal _) => at'.dropLast
    | .parentDir, some .rootDir => at'
    | c, _ => at' ++ [c]) []

/-- An embed model and a reranker, and the flag of the multi-process mode. -/
def twoModelsEnv (models rerankers : String) : Env := fun key =>
  if key = "EMBED_MODELS" then some models
  else if key = "RERANKER_MODELS" then some rerankers
  else if key = "EMBED_MULTI_PROCESS" then some "1"
  else none

/-- A name that leads out of the directory and back names the same socket. -/
example : ∃ cfg ∈ (Config.fromEnv
      (twoModelsEnv "bge:/m:768:512:0:true" "../embed-workers/bge:/r:512:true")).toOption,
    ((specs cfg).map SpawnSpec.model).Nodup ∧ ¬ SocketsApart resolveDots cfg := by
  decide +kernel

/-- The reranker is ready first. -/
def twoLaunches : List Action :=
  [.spawn 0, .spawn 1, .bind 1, .connect 1, .bind 0, .connect 0, .collect, .collect]

/-- When an embed model and a reranker have one name, requests for the embed model go to the
reranker's worker. -/
theorem kind_mismatch : ∃ cfg s,
    Config.fromEnv (twoModelsEnv "bge:/m:768:512:0:true" "bge:/r:512:true") = .ok cfg ∧
    cfg.multiProcess = true ∧ (machine resolveDots cfg).Reachable (fun _ _ => True) s ∧
    s.added = (specs cfg).length ∧ s.pool "bge" = some 1 ∧
    (specs cfg)[1]? = some ⟨"bge", .rerank, "/tmp/embed-workers"⟩ ∧
    ¬ KindCorrect resolveDots cfg s := by
  obtain ⟨cfg, hcfg, hmode, hmodel, s, hs, hadded, hpool, hspec⟩ :
      ∃ cfg ∈ (Config.fromEnv
        (twoModelsEnv "bge:/m:768:512:0:true" "bge:/r:512:true")).toOption,
        cfg.multiProcess = true ∧ (∃ m ∈ cfg.models, m.name = "bge") ∧
        ∃ s ∈ (machine resolveDots cfg).runUnder (fun _ _ => True) start twoLaunches,
          s.added = (specs cfg).length ∧ s.pool "bge" = some 1 ∧
          (specs cfg)[1]? = some ⟨"bge", .rerank, "/tmp/embed-workers"⟩ := by
    decide +kernel
  refine ⟨cfg, s, ok_of_toOption hcfg, hmode, .of_runUnder rfl hs, hadded, hpool, hspec,
    fun hkind => ?_⟩
  obtain ⟨m, hm, hname⟩ := hmodel
  obtain ⟨j, spec, hj, hspec', hkind, -⟩ := hkind.models m hm
  rw [hname, hpool] at hj
  obtain rfl := Option.some.inj hj
  rw [hspec] at hspec'
  rw [← Option.some.inj hspec'] at hkind
  cases hkind

/-- With two names each request goes to its own worker. -/
theorem kindCorrect_iff_two_names : ∃ cfg s,
    Config.fromEnv (twoModelsEnv "bge:/m:768:512:0:true" "bge-rerank:/r:512:true") = .ok cfg ∧
    (machine resolveDots cfg).Reachable (fun _ _ => True) s ∧ KindCorrect resolveDots cfg s := by
  obtain ⟨cfg, hcfg, hapart, s, hs, hadded⟩ :
      ∃ cfg ∈ (Config.fromEnv
        (twoModelsEnv "bge:/m:768:512:0:true" "bge-rerank:/r:512:true")).toOption,
        SocketsApart resolveDots cfg ∧
        ∃ s ∈ (machine resolveDots cfg).runUnder (fun _ _ => True) start twoLaunches,
          s.added = (specs cfg).length := by
    decide +kernel
  have hreach : (machine resolveDots cfg).Reachable (fun _ _ => True) s := .of_runUnder rfl hs
  exact ⟨cfg, s, ok_of_toOption hcfg, hreach, (kindCorrect_iff hreach hadded).2 hapart⟩

end OxEmbed.Startup

import OxEmbed.Library.LastSeen
import OxEmbed.Startup.Grammar
import OxEmbed.Startup.Routing
import OxEmbed.Startup.Settings

/-!
# What the workers load

In multi-process mode `main.rs` plans a worker for each configured model and starts it with the
variables of the plan on top of its own environment. The worker reads the configuration again, from
that environment, and loads the model that the plan names; a worker that is started again reads the
same variables again.

Without workers the models are kept in one map for each of the three lists, where a later entry
replaces an earlier one with the same name. A worker takes the first entry with its name.

## Main definitions

* `Entry`, `entriesOf`, `registry` : the entries of a configuration, and the maps in one process.
* `SpawnPlan`, `spawnPlans`, `spawnEnv`, `childEnv` : the plans, and the variables of a worker.
* `workerSetup` : how a worker reads them.
* `answering` : the entry that a completed startup answers with.

## Main results

* `workerSetup_planEnv` : every planned worker loads the model of its plan.
* `worker_setups` : the settings of the workers.
* `modes_serve_alike_iff` : when both modes serve the same models.
-/

namespace OxEmbed.Startup

open Text LastSeen

/-! ### The entries of a configuration -/

/-- An entry of one of the three lists. -/
inductive Entry
  | embed (m : ModelDef)
  | rerank (r : RerankerModelDef)
  | splade (d : SpladeModelDef)
  deriving DecidableEq

namespace Entry

def kind : Entry → WorkerKind
  | .embed _ => .embed
  | .rerank _ => .rerank
  | .splade _ => .splade

def name : Entry → String
  | .embed m => m.name
  | .rerank r => r.name
  | .splade d => d.name

end Entry

def entriesOf (cfg : Config) : WorkerKind → List Entry
  | .embed => cfg.models.map .embed
  | .rerank => cfg.rerankers.map .rerank
  | .splade => cfg.splades.map .splade

/-- All entries, in the order in which their workers are planned. -/
def entries (cfg : Config) : List Entry :=
  entriesOf cfg .embed ++ entriesOf cfg .rerank ++ entriesOf cfg .splade

/-- The map with the models of one kind, when they are loaded in one process. -/
def registry (cfg : Config) (kind : WorkerKind) : String → Option Entry :=
  insertAll (fun e => some e.name) (entriesOf cfg kind)

/-! ### Planning the workers -/

def u16Max : ℕ := 2 ^ 16 - 1

def WorkerKind.asStr : WorkerKind → String
  | .embed => "embed"
  | .rerank => "rerank"
  | .splade => "splade"

/-- A `SpawnSpec`, with all its fields but the path of the program. -/
structure SpawnPlan where
  spec : SpawnSpec
  poolSize : ℕ
  intraThreads : ℕ
  envExtra : List (String × String)

def workerMetricsPort (base : Option ℕ) (index : ℕ) : Option ℕ :=
  base.bind fun b => if b + index ≤ u16Max then some (b + index) else none

def metricsPortBase (env : Env) : Option ℕ :=
  (env "EMBED_WORKER_METRICS_PORT_BASE").bind fun s => (parseUnsigned u16Max (trim s)).toOption

def envExtra (env : Env) (index : ℕ) : List (String × String) :=
  match workerMetricsPort (metricsPortBase env) index with
  | some port => [("EMBED_WORKER_METRICS_PORT", toString port)]
  | none => []

/-- The bodies of the three loops that plan the workers; the mapping to upper case is a
parameter. -/
def planOf (toUppercase : String → String) (env : Env) (cfg : Config) (index : ℕ) :
    Entry → SpawnPlan
  | .embed m =>
    { spec := ⟨m.name, .embed, cfg.workerSocketDir⟩
      poolSize :=
        resolveEmbedPoolSizeForModel toUppercase env m.name (env "EMBED_SESSION_POOL_SIZE")
      intraThreads := cfg.intraThreads
      envExtra := envExtra env index }
  | .rerank r =>
    { spec := ⟨r.name, .rerank, cfg.workerSocketDir⟩
      poolSize := max (parseRerankerPoolSize (env "RERANKER_SESSION_POOL_SIZE")) 1
      intraThreads := max (parseIntraThreadsOr cfg.intraThreads (env "RERANKER_INTRA_THREADS")) 1
      envExtra := envExtra env index }
  | .splade d =>
    { spec := ⟨d.name, .splade, cfg.workerSocketDir⟩
      poolSize := max (parseSpladePoolSize (env "SPLADE_SESSION_POOL_SIZE")) 1
      intraThreads := max (parseIntraThreadsOr cfg.intraThreads (env "SPLADE_INTRA_THREADS")) 1
      envExtra := envExtra env index }

/-- The plans, in the order of the entries; `worker_index` saturates. -/
def spawnPlans (toUppercase : String → String) (env : Env) (cfg : Config) : List SpawnPlan :=
  (entries cfg).mapIdx fun i e => planOf toUppercase env cfg (min i u16Max) e

/-! ### Starting a worker -/

/-- The path of the socket as it is passed on. -/
def SpawnSpec.socketText (spec : SpawnSpec) : String :=
  .ofList (UnixPath.join spec.socketDir.toList (spec.model ++ ".sock").toList)

/-- The variables that `spawn_one` sets. -/
def spawnEnv (plan : SpawnPlan) : List (String × String) :=
  [("EMBED_WORKER_MODEL", plan.spec.model),
    ("EMBED_WORKER_KIND", plan.spec.kind.asStr),
    ("EMBED_WORKER_SOCKET", plan.spec.socketText),
    ("EMBED_WORKER_POOL_SIZE", toString plan.poolSize),
    ("EMBED_WORKER_INTRA_THREADS", toString plan.intraThreads)] ++ plan.envExtra

/-- The variables that can be set for a worker. -/
def workerVariables : List String :=
  ["EMBED_WORKER_MODEL", "EMBED_WORKER_KIND", "EMBED_WORKER_SOCKET", "EMBED_WORKER_POOL_SIZE",
    "EMBED_WORKER_INTRA_THREADS", "EMBED_WORKER_METRICS_PORT"]

/-- A process inherits the environment, with the variables that are set for it. -/
def childEnv (env : Env) (vars : List (String × String)) : Env :=
  vars.foldl (fun env var => Function.update env var.1 (some var.2)) env

/-- What a worker has read when it is about to bind its socket. -/
structure Worker where
  entry : Entry
  socket : String
  intraThreads : ℕ
  poolSize : ℕ
  maxWaiters : ℕ
  metricsPort : Option ℕ
  deriving DecidableEq

def requireEnv (env : Env) (var : String) : Except String String :=
  match env var with
  | some value => .ok value
  | none => .error s!"required env var missing: {var}"

/-- The first definition with the name. -/
def findDef {α : Type} (nameOf : α → String) (wrap : α → Entry) (missing : String → String)
    (defs : List α) (modelName : String) : Except String Entry :=
  match defs.find? (nameOf · = modelName) with
  | some d => .ok (wrap d)
  | none => .error s!"load failed: {missing modelName}"

/-- The definitions that `StandaloneEmbedder::load`, `StandaloneReranker::load` and
`StandaloneSplade::load` find. -/
def loadDef (cfg : Config) (kind modelName : String) : Except String Entry :=
  if kind = "embed" then
    findDef ModelDef.name .embed (fun name => s!"model {name} not found in EMBED_MODELS")
      cfg.models modelName
  else if kind = "rerank" then
    findDef RerankerModelDef.name .rerank
      (fun name => s!"reranker {name} not found in RERANKER_MODELS") cfg.rerankers modelName
  else if kind = "splade" then
    findDef SpladeModelDef.name .splade
      (fun name => s!"splade {name} not found in SPLADE_MODELS") cfg.splades modelName
  else .error s!"unknown EMBED_WORKER_KIND: {kind}"

/-- The port that `install_worker_metrics` binds. -/
def metricsPort (env : Env) : Option ℕ :=
  (env "EMBED_WORKER_METRICS_PORT").bind fun raw => (parseUnsigned u16Max (trim raw)).toOption

/-- `main` of the worker, up to its socket; the loading of the files and the arena are left out, and
the mapping to upper case is a parameter. -/
def workerSetup (toUppercase : String → String) (env : Env) : Except String Worker := do
  let kind := (env "EMBED_WORKER_KIND").getD "embed"
  let modelName ← requireEnv env "EMBED_WORKER_MODEL"
  let socket ← requireEnv env "EMBED_WORKER_SOCKET"
  let intraThreads ← parseUnsigned usizeMax ((env "EMBED_WORKER_INTRA_THREADS").getD (toString 2))
  let poolSize ← parseUnsigned usizeMax ((env "EMBED_WORKER_POOL_SIZE").getD (toString 1))
  let maxWaiters := resolveMaxWaitersForModel toUppercase env poolSize modelName
  let cfg ← (Config.fromEnv env).mapError fun e => s!"config: {e}"
  let entry ← loadDef cfg kind modelName
  return ⟨entry, socket, intraThreads, poolSize, maxWaiters, metricsPort env⟩

/-! ### The environment of a worker -/

section Environment

variable {env : Env} {vars : List (String × String)} {key value : String}

/-- A variable that is not set is inherited. -/
theorem childEnv_of_notMem (h : key ∉ vars.map Prod.fst) : childEnv env vars key = env key := by
  induction vars generalizing env with
  | nil => rfl
  | cons var vars ih =>
    rw [List.map_cons, List.mem_cons, not_or] at h
    rw [childEnv, List.foldl_cons]
    exact (ih h.2).trans (Function.update_of_ne h.1 ..)

/-- A variable that is set once has its value. -/
theorem childEnv_of_mem (hnodup : (vars.map Prod.fst).Nodup) (h : (key, value) ∈ vars) :
    childEnv env vars key = some value := by
  induction vars generalizing env with
  | nil => exact absurd h List.not_mem_nil
  | cons var vars ih =>
    rw [List.map_cons, List.nodup_cons] at hnodup
    rw [childEnv, List.foldl_cons]
    rcases List.mem_cons.1 h with rfl | h
    · exact (childEnv_of_notMem hnodup.1).trans (Function.update_self ..)
    · exact ih hnodup.2 h

end Environment

/-! ### The plans -/

section Plans

variable {toUppercase : String → String} {env : Env} {cfg : Config} {i : ℕ} {e : Entry}
  {plan : SpawnPlan} {kind : WorkerKind} {name : String}

/-- An entry of one kind is an entry of its list. -/
theorem mem_entriesOf : e ∈ entriesOf cfg kind ↔ e ∈ entries cfg ∧ e.kind = kind := by
  cases e <;> cases kind <;> simp [entries, entriesOf, Entry.kind]

theorem specs_eq :
    specs cfg = (entries cfg).map fun e => ⟨e.name, e.kind, cfg.workerSocketDir⟩ := by
  simp [specs, entries, entriesOf, Entry.name, Entry.kind, Function.comp_def]

theorem getElem?_spawnPlans : (spawnPlans toUppercase env cfg)[i]? =
    ((entries cfg)[i]?).map (planOf toUppercase env cfg (min i u16Max)) := by
  rw [spawnPlans, List.getElem?_mapIdx]

/-- The worker of a plan is the worker of the startup. -/
theorem planOf_spec : (planOf toUppercase env cfg i e).spec =
    ⟨e.name, e.kind, cfg.workerSocketDir⟩ := by
  cases e <;> rfl

theorem planOf_envExtra : (planOf toUppercase env cfg i e).envExtra = envExtra env i := by
  cases e <;> rfl

theorem spec_of_entries (h : (entries cfg)[i]? = some e) :
    (specs cfg)[i]? = some ⟨e.name, e.kind, cfg.workerSocketDir⟩ := by
  rw [specs_eq, List.getElem?_map, h, Option.map_some]

theorem spec_of_spawnPlans (h : (spawnPlans toUppercase env cfg)[i]? = some plan) :
    (specs cfg)[i]? = some plan.spec := by
  rw [getElem?_spawnPlans] at h
  obtain ⟨e, he, rfl⟩ := Option.map_eq_some_iff.1 h
  rw [spec_of_entries he, planOf_spec]

/-- The numbers of a plan are positive, and fit their types. -/
theorem planOf_mem_Icc (toUppercase : String → String) (env : Env) (i : ℕ) (e : Entry)
    (hcfg : cfg.WellFormed) :
    (0 < (planOf toUppercase env cfg i e).poolSize ∧
      (planOf toUppercase env cfg i e).poolSize ≤ usizeMax) ∧
    0 < (planOf toUppercase env cfg i e).intraThreads ∧
      (planOf toUppercase env cfg i e).intraThreads ≤ usizeMax := by
  have hintra : 0 < cfg.intraThreads := Nat.pos_of_ne_zero cfg.intraThreads_ne_zero
  have hmax {n : ℕ} (hn : 0 < n ∧ n ≤ usizeMax) : 0 < max n 1 ∧ max n 1 ≤ usizeMax := by
    rwa [max_eq_left hn.1]
  have hpool (raw : Option String) := hmax (positiveOr_mem_Icc one_pos one_le_usizeMax raw)
  have hthreads (raw : Option String) :=
    hmax (parseIntraThreadsOr_mem_Icc hintra hcfg.intraThreads raw)
  cases e with
  | embed m => exact ⟨resolveEmbedPoolSizeForModel_mem_Icc m.name, hintra, hcfg.intraThreads⟩
  | rerank r => exact ⟨hpool _, hthreads _⟩
  | splade d => exact ⟨hpool _, hthreads _⟩

/-! ### The set-up of a worker -/

theorem keys_spawnEnv (toUppercase : String → String) (env : Env) (cfg : Config) (i : ℕ)
    (e : Entry) : List.Sublist ((spawnEnv (planOf toUppercase env cfg i e)).map Prod.fst)
      workerVariables := by
  rw [spawnEnv, planOf_envExtra, envExtra]
  split
  · exact List.Sublist.refl _
  · exact (List.prefix_append _ ["EMBED_WORKER_METRICS_PORT"]).sublist

/-- The environment of a worker. -/
def planEnv (toUppercase : String → String) (env : Env) (cfg : Config) (i : ℕ) (e : Entry) : Env :=
  childEnv env (spawnEnv (planOf toUppercase env cfg i e))

theorem planEnv_of_notMem {key : String} (h : key ∉ workerVariables) :
    planEnv toUppercase env cfg i e key = env key :=
  childEnv_of_notMem fun hmem => h ((keys_spawnEnv toUppercase env cfg i e).subset hmem)

theorem planEnv_of_mem {key value : String}
    (h : (key, value) ∈ spawnEnv (planOf toUppercase env cfg i e)) :
    planEnv toUppercase env cfg i e key = some value :=
  childEnv_of_mem ((by decide : workerVariables.Nodup).sublist
    (keys_spawnEnv toUppercase env cfg i e)) h

/-- A worker reads the configuration of the process that started it. -/
theorem fromEnv_planEnv (hcfg : Config.fromEnv env = .ok cfg) :
    Config.fromEnv (planEnv toUppercase env cfg i e) = .ok cfg := by
  have hkeys : ∀ key ∈ Config.variables, key ∉ workerVariables := by decide
  exact fromEnv_eq_ok_iff.2 ((fromEnv_eq_ok_iff.1 hcfg).congr fun key hkey =>
    planEnv_of_notMem (hkeys key hkey))

/-- The limits of the waiters are not variables of one worker. -/
theorem maxWaiters_notMem {key : String} (hkey : "EMBED_MAX".toList <+: key.toList) :
    key ∉ workerVariables := by
  intro hmem
  have hworker : ∀ key ∈ workerVariables, "EMBED_WOR".toList <+: key.toList := by decide
  exact absurd (List.prefix_of_prefix_length_le (hworker key hmem) hkey (by decide)) (by decide)

theorem resolveMaxWaitersForModel_planEnv (poolSize : ℕ) (modelName : String) :
    resolveMaxWaitersForModel toUppercase (planEnv toUppercase env cfg i e) poolSize modelName =
      resolveMaxWaitersForModel toUppercase env poolSize modelName := by
  have hmodel : "EMBED_MAX".toList <+:
      ("EMBED_MAX_WAITERS_" ++ OnnxCache.modelEnvKey toUppercase modelName).toList := by
    rw [String.toList_append]
    exact List.IsPrefix.trans (by decide) (List.prefix_append _ _)
  rw [resolveMaxWaitersForModel, resolveMaxWaitersForModel,
    planEnv_of_notMem (maxWaiters_notMem hmodel), planEnv_of_notMem (maxWaiters_notMem (by decide))]

theorem findDef_eq_ok_iff {α : Type} {nameOf : α → String} {wrap : α → Entry}
    {missing : String → String} {defs : List α} (hname : ∀ d, (wrap d).name = nameOf d) :
    findDef nameOf wrap missing defs name = .ok e ↔
      (defs.map wrap).find? (·.name = name) = some e := by
  have hcomp : (fun e : Entry => decide (e.name = name)) ∘ wrap =
      fun d => decide (nameOf d = name) := by
    funext d
    rw [Function.comp_apply, hname]
  rw [findDef, List.find?_map, hcomp]
  cases defs.find? (nameOf · = name) with
  | none => exact ⟨fun h => (nomatch h), fun h => (nomatch h)⟩
  | some d => rw [Option.map_some, Option.some_inj, Except.ok.injEq]

/-- The definition that a worker finds. -/
theorem loadDef_asStr_eq_ok_iff :
    loadDef cfg kind.asStr name = .ok e ↔ (entriesOf cfg kind).find? (·.name = name) = some e := by
  rw [loadDef]
  cases kind with
  | embed =>
    rw [WorkerKind.asStr, if_pos rfl, entriesOf]
    exact findDef_eq_ok_iff fun _ => rfl
  | rerank =>
    rw [WorkerKind.asStr, if_neg (by decide), if_pos rfl, entriesOf]
    exact findDef_eq_ok_iff fun _ => rfl
  | splade =>
    rw [WorkerKind.asStr, if_neg (by decide), if_neg (by decide), if_pos rfl, entriesOf]
    exact findDef_eq_ok_iff fun _ => rfl

/-- **Every planned worker loads the model of its plan**, with the numbers of the plan. -/
theorem workerSetup_planEnv (toUppercase : String → String) (i : ℕ)
    (hcfg : Config.fromEnv env = .ok cfg) (he : e ∈ entries cfg) :
    ∃ e', (entriesOf cfg e.kind).find? (·.name = e.name) = some e' ∧
      workerSetup toUppercase (planEnv toUppercase env cfg i e) = .ok
        { entry := e'
          socket := (planOf toUppercase env cfg i e).spec.socketText
          intraThreads := (planOf toUppercase env cfg i e).intraThreads
          poolSize := (planOf toUppercase env cfg i e).poolSize
          maxWaiters := resolveMaxWaitersForModel toUppercase env
            (planOf toUppercase env cfg i e).poolSize e.name
          metricsPort := metricsPort (planEnv toUppercase env cfg i e) } := by
  obtain ⟨e', hfind⟩ : ∃ e', (entriesOf cfg e.kind).find? (·.name = e.name) = some e' := by
    rw [← Option.isSome_iff_exists, List.find?_isSome]
    exact ⟨e, mem_entriesOf.2 ⟨he, rfl⟩, decide_eq_true rfl⟩
  refine ⟨e', hfind, ?_⟩
  obtain ⟨⟨-, hpool⟩, -, hintra⟩ :=
    planOf_mem_Icc toUppercase env i e (fromEnv_eq_ok_iff.1 hcfg).wellFormed
  have hset {key value : String} (h : (key, value) ∈ spawnEnv (planOf toUppercase env cfg i e)) :=
    planEnv_of_mem h
  have hmodel : planEnv toUppercase env cfg i e "EMBED_WORKER_MODEL" = some e.name :=
    hset (by simp [spawnEnv, planOf_spec])
  have hkind : planEnv toUppercase env cfg i e "EMBED_WORKER_KIND" = some e.kind.asStr :=
    hset (by simp [spawnEnv, planOf_spec])
  have hsocket : planEnv toUppercase env cfg i e "EMBED_WORKER_SOCKET" =
      some (planOf toUppercase env cfg i e).spec.socketText := hset (by simp [spawnEnv])
  have hsetPool : planEnv toUppercase env cfg i e "EMBED_WORKER_POOL_SIZE" =
      some (toString (planOf toUppercase env cfg i e).poolSize) := hset (by simp [spawnEnv])
  have hsetIntra : planEnv toUppercase env cfg i e "EMBED_WORKER_INTRA_THREADS" =
      some (toString (planOf toUppercase env cfg i e).intraThreads) := hset (by simp [spawnEnv])
  rw [workerSetup, requireEnv, requireEnv, hmodel, hkind, hsocket, hsetPool, hsetIntra,
    fromEnv_planEnv hcfg]
  simp only [Option.getD_some, bind_eq_ok]
  refine ⟨e.name, rfl, _, rfl, _, parseUnsigned_toString hintra, _, parseUnsigned_toString hpool,
    cfg, rfl, e', loadDef_asStr_eq_ok_iff.2 hfind, ?_⟩
  rw [resolveMaxWaitersForModel_planEnv]
  rfl

theorem workerMetricsPort_eq_some_iff {base : Option ℕ} {port : ℕ} :
    workerMetricsPort base i = some port ↔ base = some (port - i) ∧ i ≤ port ∧ port ≤ u16Max := by
  cases base with
  | none => exact ⟨fun h => (nomatch h), fun h => (nomatch h.1)⟩
  | some b =>
    rw [workerMetricsPort, Option.bind_some, Option.some_inj]
    split
    next hle =>
      rw [Option.some_inj]
      omega
    next hle =>
      refine ⟨fun h => (nomatch h), ?_⟩
      omega

/-- The port that a worker binds: the one that is planned for it, or else an inherited one. -/
theorem metricsPort_planEnv : metricsPort (planEnv toUppercase env cfg i e) =
    (workerMetricsPort (metricsPortBase env) i).or (metricsPort env) := by
  cases hport : workerMetricsPort (metricsPortBase env) i with
  | some port =>
    obtain ⟨-, -, hle⟩ := workerMetricsPort_eq_some_iff.1 hport
    have hset : planEnv toUppercase env cfg i e "EMBED_WORKER_METRICS_PORT" =
        some (toString port) := by
      refine planEnv_of_mem (List.mem_append_right _ ?_)
      rw [planOf_envExtra, envExtra, hport]
      exact List.mem_singleton_self _
    rw [metricsPort, hset, Option.bind_some, trim_toString, parseUnsigned_toString hle]
    rfl
  | none =>
    have hset : planEnv toUppercase env cfg i e "EMBED_WORKER_METRICS_PORT" =
        env "EMBED_WORKER_METRICS_PORT" := by
      refine childEnv_of_notMem ?_
      rw [spawnEnv, planOf_envExtra, envExtra, hport]
      simp
    rw [metricsPort, hset, Option.none_or]
    rfl

/-- A worker that serves its plan. -/
structure Worker.Follows (cfg : Config) (plan : SpawnPlan) (w : Worker) : Prop where
  /-- The worker loads the first entry of its kind with its name. -/
  entry : (entriesOf cfg plan.spec.kind).find? (·.name = plan.spec.model) = some w.entry
  /-- It listens where its client connects. -/
  socket : UnixPath.components w.socket.toList = plan.spec.socketPath
  poolSize : w.poolSize = plan.poolSize
  intraThreads : w.intraThreads = plan.intraThreads
  poolSize_pos : 0 < w.poolSize
  intraThreads_pos : 0 < w.intraThreads
  maxWaiters_pos : 0 < w.maxWaiters

/-- A worker of a plan can always be set up. -/
theorem exists_worker (hcfg : Config.fromEnv env = .ok cfg)
    (hplan : (spawnPlans toUppercase env cfg)[i]? = some plan) :
    ∃ w, workerSetup toUppercase (childEnv env (spawnEnv plan)) = .ok w ∧ w.Follows cfg plan ∧
      w.metricsPort =
        (workerMetricsPort (metricsPortBase env) (min i u16Max)).or (metricsPort env) := by
  rw [getElem?_spawnPlans] at hplan
  obtain ⟨e, he, rfl⟩ := Option.map_eq_some_iff.1 hplan
  obtain ⟨⟨hpool, -⟩, hintra, -⟩ :=
    planOf_mem_Icc toUppercase env (min i u16Max) e (fromEnv_eq_ok_iff.1 hcfg).wellFormed
  obtain ⟨e', hfind, hsetup⟩ := workerSetup_planEnv toUppercase (min i u16Max) hcfg
    (List.mem_of_getElem? he)
  refine ⟨_, hsetup, ?_, metricsPort_planEnv⟩
  exact {
    entry := by rwa [planOf_spec]
    socket := by rw [SpawnSpec.socketText, String.toList_ofList, SpawnSpec.socketPath]
    poolSize := rfl
    intraThreads := rfl
    poolSize_pos := hpool
    intraThreads_pos := hintra
    maxWaiters_pos := resolveMaxWaitersForModel_pos _ _ }

/-- Every planned worker is set up, and no two workers bind one port for their metrics, unless they
inherit it. -/
structure SetUp (toUppercase : String → String) (env : Env) (cfg : Config) : Prop where
  worker (i : ℕ) (plan : SpawnPlan) (hi : (spawnPlans toUppercase env cfg)[i]? = some plan) :
    (specs cfg)[i]? = some plan.spec ∧
      ∃ w, workerSetup toUppercase (childEnv env (spawnEnv plan)) = .ok w ∧ w.Follows cfg plan
  ports (hinherit : env "EMBED_WORKER_METRICS_PORT" = none) (i k : ℕ) (plan plan' : SpawnPlan)
    (w w' : Worker) (hik : i < k) (hk : k ≤ u16Max)
    (hi : (spawnPlans toUppercase env cfg)[i]? = some plan)
    (hi' : (spawnPlans toUppercase env cfg)[k]? = some plan')
    (hw : workerSetup toUppercase (childEnv env (spawnEnv plan)) = .ok w)
    (hw' : workerSetup toUppercase (childEnv env (spawnEnv plan')) = .ok w') :
    ∀ port ∈ w.metricsPort, w'.metricsPort ≠ some port

/-- **The settings of the workers**: whenever the worker of a plan is started it reads the settings
of its plan, with which it can serve requests. -/
theorem worker_setups (hcfg : Config.fromEnv env = .ok cfg) : SetUp toUppercase env cfg where
  worker i plan hi := by
    obtain ⟨w, hw, hfollows, -⟩ := exists_worker hcfg hi
    exact ⟨spec_of_spawnPlans hi, w, hw, hfollows⟩
  ports hinherit i k plan plan' w w' hik hk hi hi' hw hw' port hport hsame := by
    have hinherited : metricsPort env = none := by rw [metricsPort, hinherit, Option.bind_none]
    obtain ⟨w₁, hw₁, -, hport₁⟩ := exists_worker hcfg hi
    obtain ⟨w₂, hw₂, -, hport₂⟩ := exists_worker hcfg hi'
    obtain rfl := Except.ok.inj (hw.symm.trans hw₁)
    obtain rfl := Except.ok.inj (hw'.symm.trans hw₂)
    rw [hport₁, hinherited, Option.or_none, min_eq_left (by omega)] at hport
    rw [hport₂, hinherited, Option.or_none, min_eq_left hk] at hsame
    obtain ⟨hbase, hle, -⟩ := workerMetricsPort_eq_some_iff.1 hport
    obtain ⟨hbase', hle', -⟩ := workerMetricsPort_eq_some_iff.1 hsame
    have hsub := Option.some.inj (hbase.symm.trans hbase')
    omega

/-- The worker of the second model. -/
theorem worker_setups_two_names : ∃ cfg,
    Config.fromEnv (twoModelsEnv "bge:/m:768:512:0:true" "bge-rerank:/r:512:true") = .ok cfg ∧
    SetUp String.toUpper (twoModelsEnv "bge:/m:768:512:0:true" "bge-rerank:/r:512:true") cfg := by
  obtain ⟨cfg, hcfg, -⟩ : ∃ cfg ∈ (Config.fromEnv
      (twoModelsEnv "bge:/m:768:512:0:true" "bge-rerank:/r:512:true")).toOption,
      cfg.models.length = 1 := by
    decide +kernel
  exact ⟨cfg, ok_of_toOption hcfg, worker_setups (ok_of_toOption hcfg)⟩

/-! ### The two modes -/

/-- The worker that the client is connected to. -/
def LaunchPhase.connected : LaunchPhase → Option ℕ
  | .launched w => some w
  | _ => none

/-- The entry that answers a request for a model of this kind, when the startup has reached the
state `s`: the kind has a map with the names of its models, the pool finds a supervisor, and its
worker refuses requests of another kind. -/
def answering (toUppercase : String → String) (env : Env) (cfg : Config) (s : State)
    (kind : WorkerKind) (name : String) : Option Entry := do
  let _ ← registry cfg kind name
  let j ← s.pool name
  let w ← (s.launch j).connected
  let plan ← (spawnPlans toUppercase env cfg)[w]?
  let worker ← (workerSetup toUppercase (childEnv env (spawnEnv plan))).toOption
  if worker.entry.kind = kind then some worker.entry else none

/-- The names of the models of different kinds differ, and the first and the last definition of a
name are the same. -/
structure Unambiguous (cfg : Config) : Prop where
  kind : ∀ e ∈ entries cfg, ∀ e' ∈ entries cfg, e.name = e'.name → e.kind = e'.kind
  defs : ∀ kind name, (entriesOf cfg kind).find? (·.name = name) = registry cfg kind name

section Modes

variable {s : State}

/-- The plan of a worker of the startup. -/
theorem plan_of_spec (toUppercase : String → String) (env : Env) {spec : SpawnSpec}
    (h : (specs cfg)[i]? = some spec) :
    ∃ plan, (spawnPlans toUppercase env cfg)[i]? = some plan ∧ plan.spec = spec := by
  rw [specs_eq, List.getElem?_map] at h
  obtain ⟨e, he, rfl⟩ := Option.map_eq_some_iff.1 h
  exact ⟨_, by rw [getElem?_spawnPlans, he, Option.map_some], planOf_spec⟩

/-- The client of a configured name is connected to a worker with that name. Names without a `/` in
one directory are different files, so a path stands for its file here. -/
theorem exists_connected {C : State → Action → Prop}
    (hplain : ∀ e ∈ entries cfg, '/' ∉ e.name.toList) (hs : (machine id cfg).Reachable C s)
    (hadded : s.added = (specs cfg).length) (he : e ∈ entries cfg) :
    ∃ j w spec, s.pool e.name = some j ∧ (s.launch j).connected = some w ∧
      (specs cfg)[w]? = some spec ∧ spec.model = e.name := by
  have hinv := inv_of_reachable hs
  have hplain' (spec : SpawnSpec) (hspec : spec ∈ specs cfg) : '/' ∉ spec.model.toList := by
    rw [specs_eq] at hspec
    obtain ⟨e', he', rfl⟩ := List.mem_map.1 hspec
    exact hplain e' he'
  obtain ⟨i, hi⟩ := List.getElem?_of_mem he
  obtain ⟨hlt, -⟩ := List.getElem?_eq_some_iff.1 (spec_of_entries hi)
  obtain ⟨j, hj⟩ := Option.isSome_iff_exists.1 (hinv.found i (hadded ▸ hlt) _ (spec_of_entries hi))
  obtain ⟨hjlt, spec', hspec', hmodel⟩ := hinv.pool _ _ hj
  obtain ⟨w, hw⟩ := hinv.collected j hjlt
  obtain ⟨spec₁, spec₂, h₁, h₂, hpath⟩ := hinv.launched j w hw
  obtain rfl := Option.some.inj (hspec'.symm.trans h₁)
  have hmem₁ := List.mem_of_getElem? h₁
  have hmem₂ := List.mem_of_getElem? h₂
  have hname := model_eq_of_socketPath separatesNames_id hmem₂ hmem₁ (hplain' _ hmem₂)
    (hplain' _ hmem₁) hpath
  exact ⟨j, w, spec₂, hj, by rw [hw]; rfl, h₂, hname.trans hmodel⟩

/-- After a completed startup, one entry of each configured name answers the requests of its
kind. -/
theorem exists_answering (toUppercase : String → String) {C : State → Action → Prop}
    (hcfg : Config.fromEnv env = .ok cfg)
    (hplain : ∀ e ∈ entries cfg, '/' ∉ e.name.toList) (hs : (machine id cfg).Reachable C s)
    (hadded : s.added = (specs cfg).length) (he : e ∈ entries cfg) :
    ∃ f, (entriesOf cfg f.kind).find? (·.name = e.name) = some f ∧
      ∀ kind, (registry cfg kind e.name).isSome →
        answering toUppercase env cfg s kind e.name = if f.kind = kind then some f else none := by
  obtain ⟨j, w, spec, hj, hw, hspec, hname⟩ := exists_connected hplain hs hadded he
  obtain ⟨plan, hplan, rfl⟩ := plan_of_spec toUppercase env hspec
  obtain ⟨worker, hsetup, hfollows, -⟩ := exists_worker hcfg hplan
  have hentry := hfollows.entry
  rw [hname] at hentry
  have hkind := (mem_entriesOf.1 (List.mem_of_find?_eq_some hentry)).2
  refine ⟨worker.entry, by rwa [hkind], fun kind hregistry => ?_⟩
  obtain ⟨last, hlast⟩ := Option.isSome_iff_exists.1 hregistry
  rw [answering, hlast]
  simp only [Option.bind_eq_bind, Option.bind_some, hj, hw, hplan, hsetup, Except.toOption]

/-- The map of a kind has the names of its entries. -/
theorem isSome_registry_iff :
    (registry cfg kind name).isSome ↔ ∃ e ∈ entries cfg, e.kind = kind ∧ e.name = name := by
  rw [registry, insertAll_isSome_iff]
  simp only [mem_entriesOf, Option.some_inj, and_assoc]

/-- **When both modes serve the same models**, after a completed startup with names without a `/`,
in whatever order the workers got ready: the names are unambiguous. -/
theorem modes_serve_alike_iff {C : State → Action → Prop} (hcfg : Config.fromEnv env = .ok cfg)
    (hplain : ∀ e ∈ entries cfg, '/' ∉ e.name.toList) (hs : (machine id cfg).Reachable C s)
    (hadded : s.added = (specs cfg).length) :
    (∀ kind name, answering toUppercase env cfg s kind name = registry cfg kind name) ↔
      Unambiguous cfg := by
  constructor
  · intro halike
    -- what answers to a name is of every kind that has the name
    have hkind {e e' f : Entry} (he' : e' ∈ entries cfg) (hname : e'.name = e.name)
        (hf : ∀ kind, (registry cfg kind e.name).isSome →
          answering toUppercase env cfg s kind e.name = if f.kind = kind then some f else none) :
        f.kind = e'.kind ∧ registry cfg e'.kind e.name = some f := by
      have hsome : (registry cfg e'.kind e.name).isSome :=
        isSome_registry_iff.2 ⟨e', he', rfl, hname⟩
      have hregistry := hf e'.kind hsome
      rw [halike] at hregistry
      by_cases hne : f.kind = e'.kind
      · rw [if_pos hne] at hregistry
        exact ⟨hne, hregistry⟩
      · rw [if_neg hne] at hregistry
        rw [hregistry] at hsome
        exact (nomatch hsome)
    refine ⟨fun e he e' he' hname => ?_, fun kind name => ?_⟩
    · obtain ⟨f, -, hf⟩ := exists_answering toUppercase hcfg hplain hs hadded he
      exact (hkind he rfl hf).1.symm.trans (hkind he' hname.symm hf).1
    · by_cases hsome : ∃ e ∈ entries cfg, e.kind = kind ∧ e.name = name
      · obtain ⟨e, he, rfl, rfl⟩ := hsome
        obtain ⟨f, hfind, hf⟩ :=
          exists_answering toUppercase hcfg hplain hs hadded he
        obtain ⟨hsame, hregistry⟩ := hkind he rfl hf
        rw [hregistry, ← hfind, hsame]
      · have hnone := isSome_registry_iff.not.2 hsome
        rw [Option.not_isSome_iff_eq_none] at hnone
        rw [hnone, List.find?_eq_none]
        intro e he hname
        obtain ⟨hmem, hkind⟩ := mem_entriesOf.1 he
        exact hsome ⟨e, hmem, hkind, of_decide_eq_true hname⟩
  · intro hunambiguous kind name
    by_cases hsome : (registry cfg kind name).isSome
    · obtain ⟨e, he, rfl, rfl⟩ := isSome_registry_iff.1 hsome
      obtain ⟨f, hfind, hf⟩ :=
        exists_answering toUppercase hcfg hplain hs hadded he
      obtain ⟨hmem, -⟩ := mem_entriesOf.1 (List.mem_of_find?_eq_some hfind)
      have hname : f.name = e.name := by simpa using List.find?_some hfind
      have hkind := hunambiguous.kind f hmem e he hname
      rw [hf e.kind hsome, if_pos hkind, ← hunambiguous.defs, ← hkind, hfind]
    · rw [answering, Option.not_isSome_iff_eq_none.1 hsome]
      rfl

/-- An embedding model and a reranker with two names. -/
theorem modes_serve_alike_two_names : ∃ cfg s,
    Config.fromEnv (twoModelsEnv "bge:/m:768:512:0:true" "bge-rerank:/r:512:true") = .ok cfg ∧
    (machine id cfg).Reachable (fun _ _ => True) s ∧ s.added = (specs cfg).length ∧
    ((∀ kind name, answering String.toUpper
        (twoModelsEnv "bge:/m:768:512:0:true" "bge-rerank:/r:512:true") cfg s kind name =
        registry cfg kind name) ↔ Unambiguous cfg) := by
  obtain ⟨cfg, hcfg, hplain, s, hs, hadded⟩ : ∃ cfg ∈ (Config.fromEnv
      (twoModelsEnv "bge:/m:768:512:0:true" "bge-rerank:/r:512:true")).toOption,
      (∀ e ∈ entries cfg, '/' ∉ e.name.toList) ∧
        ∃ s ∈ (machine id cfg).runUnder (fun _ _ => True) start twoLaunches,
          s.added = (specs cfg).length := by
    decide +kernel
  have hreach : (machine id cfg).Reachable (fun _ _ => True) s := .of_runUnder rfl hs
  exact ⟨cfg, s, ok_of_toOption hcfg, hreach, hadded,
    modes_serve_alike_iff (ok_of_toOption hcfg) hplain hreach hadded⟩

end Modes

end Plans

end OxEmbed.Startup

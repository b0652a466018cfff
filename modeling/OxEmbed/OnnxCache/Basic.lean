import Mathlib.Logic.Function.Basic
import OxEmbed.Library.Machine
import OxEmbed.Library.UnixPath
import OxEmbed.Startup.Config

/-!
# The cache of optimized graphs

`onnx_cache.rs`, with the loads of sessions that use it. A load looks whether the cache directory
has a file for its model: if so it reads that file, and else it reads the model's own file and asks
ORT to serialize the optimized graph into the directory while it commits the session. Loads run in
several worker processes, which may crash at any point; the cache directory may hold anything at
first.

ORT is a parameter. It writes the graph piece by piece, so a part of it is visible in between. The
model files, their modification times and the environment do not change. Paths are lists of
components.

The fields `results` and `writer` of a state are history variables: no step reads them.

## Main definitions

* `File`, `Disk`, `Ort`, `Model`, `Setting` : the files, ORT and the configured models.
* `fromEnvForModel`, `cachePath`, `LoadPlan.decide`, `applyPlan` : the functions of the cache.
* `Setting.plan`, `Setting.commit` : the decision of a load, and what it reads and commits.
* `State`, `Action`, `step`, `machine` : loads and crashes as a machine.
* `Trans` : what a step can do.

## Main results

* `trans_of_step` : every step is one of the transitions `Trans`.
* `procOk_of_reachable` : what a load knows at each program point.
-/

namespace OxEmbed.OnnxCache

open Startup (Env)
open UnixPath (Component components display fileName)

/-! ### Files and ORT -/

abbrev Path := List Component

/-- What reading a path gives. A file that cannot be read exists all the same. -/
inductive File
  | absent
  | unreadable (error : String)
  | bytes (content : List UInt8)
  deriving DecidableEq

/-- `Path::exists`. -/
def File.isPresent : File → Bool
  | .absent => false
  | _ => true

/-- `std::fs::read`. -/
def File.read : File → Except String (List UInt8)
  | .absent => .error "No such file or directory (os error 2)"
  | .unreadable e => .error e
  | .bytes content => .ok content

/-- The files outside the cache directory. -/
structure Disk where
  /-- The modification time in nanoseconds, if the metadata can be read. -/
  mtimeNs : Path → Option ℕ
  file : Path → File
  /-- A `.data` file stands next to the model file. -/
  sidecar : Path → Bool

/-- `GraphOptimizationLevel`. -/
inductive OptLevel
  | disable
  | level1
  | level2
  | level3
  deriving DecidableEq

structure Ort where
  commitFromMemory : OptLevel → List UInt8 → Except String Unit
  commitFromFile : OptLevel → Path → Except String Unit
  /-- The serialized optimized graph. -/
  optimize : OptLevel → List UInt8 → List UInt8

/-- ORT loads a graph that it has serialized, and rejects it when it is truncated. -/
structure Ort.Lawful (ort : Ort) : Prop where
  complete : ∀ level bytes, ort.commitFromMemory level bytes = .ok () →
    ort.commitFromMemory .disable (ort.optimize level bytes) = .ok ()
  truncated : ∀ level bytes n, n < (ort.optimize level bytes).length →
    ∃ e, ort.commitFromMemory .disable ((ort.optimize level bytes).take n) = .error e

/-! ### The cache -/

/-- `model_env_key`; the mapping to upper case is a parameter. -/
def modelEnvKey (toUppercase : String → String) (modelKey : String) : String :=
  .ofList ((toUppercase modelKey).toList.map fun c => if c = '-' then '_' else c)

/-- The directory that a variable names. -/
def envDir (env : Env) (key : String) : Option String :=
  match env key with
  | none => none
  | some raw => if Text.trim raw = "" then none else some (Text.trim raw)

/-- `CacheDir::from_path`: the directory can be created and written to, or the cache is off. -/
def fromPath (usable : String → Bool) (dir : String) : Option String :=
  if usable dir then some dir else none

/-- `CacheDir::from_env`. -/
def fromEnv (env : Env) (usable : String → Bool) : Option String :=
  (envDir env "ONNX_OPT_CACHE_DIR").bind (fromPath usable)

/-- `CacheDir::from_env_for_model`. -/
def fromEnvForModel (toUppercase : String → String) (env : Env) (usable : String → Bool)
    (modelKey : String) : Option String :=
  match envDir env ("ONNX_OPT_CACHE_DIR_" ++ modelEnvKey toUppercase modelKey) with
  | some dir => fromPath usable dir
  | none => fromEnv env usable

/-- The name of the cache file of a model file. -/
def cacheFile (basename : List Char) (mtimeNs : ℕ) : List Char :=
  basename ++ '.' :: (Nat.toDigits 10 mtimeNs ++ ".optimized.onnx".toList)

/-- `CacheDir::cache_path`. -/
def cachePath (disk : Disk) (dir : String) (source : Path) : Option Path :=
  match fileName source, disk.mtimeNs source with
  | some basename, some mtimeNs =>
    some (components (UnixPath.join dir.toList (cacheFile basename mtimeNs)))
  | _, _ => none

inductive LoadPlan
  | noCache
  | hit (cached : Path)
  | miss (target : Path)
  deriving DecidableEq

def LoadPlan.decide (disk : Disk) (files : Path → File) (cache : Option String) (source : Path) :
    LoadPlan :=
  match cache with
  | none => .noCache
  | some dir =>
    match cachePath disk dir source with
    | none => .noCache
    | some target => if (files target).isPresent then .hit target else .miss target

/-- `LoadPlan::load_source`. -/
def LoadPlan.loadSource (source : Path) : LoadPlan → Path
  | .hit cached => cached
  | _ => source

/-- `apply_plan`: the optimization level of the builder, and the path at which ORT serializes the
optimized graph. -/
def applyPlan (requested : OptLevel) : LoadPlan → OptLevel × Option Path
  | .noCache => (requested, none)
  | .hit _ => (.disable, none)
  | .miss target => (requested, some target)

/-! ### A load -/

/-- Which function loads the sessions: `build_one_session`, or `build_session_pool` and
`SpladeModel::load`. -/
inductive Loader
  | embed
  | pool
  deriving DecidableEq

structure Model where
  name : String
  dir : String
  onnxFile : String
  loader : Loader
  deriving DecidableEq

/-- The path of the model file. -/
def Model.source (m : Model) : Path :=
  components (UnixPath.join m.dir.toList m.onnxFile.toList)

/-- What does not change while the loads run. -/
structure Setting where
  ort : Ort
  disk : Disk
  env : Env
  toUppercase : String → String
  /-- `ORT_OPT_LEVEL`. -/
  requested : OptLevel
  models : List Model

/-- The number of the session in an error, where the loader gives it. -/
def Model.tag (m : Model) (i : ℕ) : String :=
  match m.loader with
  | .embed => ""
  | .pool => s!"#{i} "

variable (S : Setting)

/-- Only `build_one_session` looks for external data. -/
def Setting.externalData (m : Model) : Bool :=
  match m.loader with
  | .embed => S.disk.sidecar m.source
  | .pool => false

/-- The decision of a load; `usable` tells which directories can be written to now. -/
def Setting.plan (files : Path → File) (usable : String → Bool) (m : Model) : LoadPlan :=
  if S.externalData m then .noCache
  else .decide S.disk files (fromEnvForModel S.toUppercase S.env usable m.name) m.source

/-- The file at the path `loadSource`. -/
def Setting.loadFile (files : Path → File) (m : Model) : LoadPlan → File
  | .hit cached => files cached
  | .noCache | .miss _ => S.disk.file m.source

/-- Read the file that the plan says and commit the session. On a miss ORT then serializes the
graph: the path and the content are returned. -/
def Setting.commit (files : Path → File) (m : Model) (i : ℕ) (plan : LoadPlan) :
    Except String (Option (Path × List UInt8)) :=
  if S.externalData m then
    match S.ort.commitFromFile S.requested m.source with
    | .ok () => .ok none
    | .error e => .error s!"load ONNX {display m.source}: {e}"
  else
    let path := plan.loadSource m.source
    match (S.loadFile files m plan).read with
    | .error e =>
      .error s!"read ONNX bytes {m.tag i}{display path}: read ONNX {display path}: {e}"
    | .ok bytes =>
      let (level, target) := applyPlan S.requested plan
      match S.ort.commitFromMemory level bytes with
      | .error e => .error s!"load ONNX {m.tag i}{display path}: {e}"
      | .ok () => .ok (target.map fun t => (t, S.ort.optimize level bytes))

/-- The model loads with the cache disabled. -/
def Setting.LoadsPlain (m : Model) : Prop :=
  ∃ out, S.commit (fun _ => .absent) m 0 .noCache = .ok out

/-- The cache file of a model, when it uses the cache and the directory is usable. -/
def Setting.key (m : Model) : Option Path :=
  if S.externalData m then none
  else (fromEnvForModel S.toUppercase S.env (fun _ => true) m.name).bind fun dir =>
    cachePath S.disk dir m.source

/-! ### Loads and crashes as a machine -/

/-- The program point of a process that loads a session. -/
inductive Proc
  | idle
  /-- The plan is decided. -/
  | planned (m : Model) (i : ℕ) (plan : LoadPlan)
  /-- ORT serializes the graph. -/
  | saving (m : Model) (i : ℕ) (target : Path) (graph : List UInt8)
  deriving DecidableEq

structure State where
  /-- The files at the paths of cache files. -/
  files : Path → File
  procs : ℕ → Proc
  /-- History: the loads that have returned. -/
  results : List (Model × Except String Unit)
  /-- History: the source of the load that last wrote a cache file. -/
  writer : Path → Option Path

inductive Action
  | begin (p : ℕ) (m : Model) (i : ℕ) (usable : String → Bool)
  /-- The load reads the file and commits the session, up to the serialization. -/
  | load (p : ℕ)
  /-- The first `n` bytes of the graph are on the disk. -/
  | save (p n : ℕ)
  /-- The graph is complete, and the load returns. -/
  | saved (p : ℕ)
  /-- ORT stops serializing, and the load returns. -/
  | saveSkipped (p : ℕ)
  /-- The disk refuses a write of the graph, for which ORT fails the commit. -/
  | writeRefused (p : ℕ) (e : String)
  | crash (p : ℕ)

def State.finish (s : State) (p : ℕ) (m : Model) (r : Except String Unit) : State :=
  { s with procs := Function.update s.procs p .idle, results := s.results ++ [(m, r)] }

/-- A load of the model `m` has written to the file. -/
def State.write (s : State) (m : Model) (target : Path) (content : List UInt8) : State :=
  { s with
    files := Function.update s.files target (.bytes content)
    writer := Function.update s.writer target (some m.source) }

@[simp] theorem State.write_procs (s : State) (m : Model) (target : Path) (content : List UInt8) :
    (s.write m target content).procs = s.procs := rfl

@[simp] theorem State.write_files_self (s : State) (m : Model) (target : Path)
    (content : List UInt8) : (s.write m target content).files target = .bytes content :=
  Function.update_self ..

theorem State.write_files_of_ne (s : State) (m : Model) {target path : Path}
    (content : List UInt8) (h : path ≠ target) :
    (s.write m target content).files path = s.files path :=
  Function.update_of_ne h ..

def step (s : State) : Action → Option State
  | .begin p m i usable =>
    if m ∈ S.models ∧ s.procs p = .idle then
      some { s with procs := Function.update s.procs p (.planned m i (S.plan s.files usable m)) }
    else none
  | .load p =>
    match s.procs p with
    | .planned m i plan =>
      match S.commit s.files m i plan with
      | .error e => some (s.finish p m (.error e))
      | .ok none => some (s.finish p m (.ok ()))
      | .ok (some (target, graph)) =>
        some { s with procs := Function.update s.procs p (.saving m i target graph) }
    | _ => none
  | .save p n =>
    match s.procs p with
    | .saving m _ target graph => some (s.write m target (graph.take n))
    | _ => none
  | .saved p =>
    match s.procs p with
    | .saving m _ target graph => some ((s.write m target graph).finish p m (.ok ()))
    | _ => none
  | .saveSkipped p =>
    match s.procs p with
    | .saving m _ _ _ => some (s.finish p m (.ok ()))
    | _ => none
  | .writeRefused p e =>
    match s.procs p with
    | .saving m i _ _ =>
      some (s.finish p m (.error s!"load ONNX {m.tag i}{display m.source}: {e}"))
    | _ => none
  | .crash p => some { s with procs := Function.update s.procs p .idle }

/-- The loads, from the contents of the cache directory that meet `Files`. -/
def machine (Files : (Path → File) → Prop) : Machine State Action where
  Init s := Files s.files ∧ s.procs = (fun _ => .idle) ∧ s.results = [] ∧
    s.writer = fun _ => none
  step := step S

/-- The branches of `step`. -/
inductive Trans (S : Setting) (s : State) : Action → State → Prop
  | begin {p : ℕ} {m : Model} {i : ℕ} {usable : String → Bool} (hm : m ∈ S.models)
      (hp : s.procs p = .idle) :
      Trans S s (.begin p m i usable)
        { s with procs := Function.update s.procs p (.planned m i (S.plan s.files usable m)) }
  | loadFailed {p : ℕ} {m : Model} {i : ℕ} {plan : LoadPlan} {e : String}
      (hp : s.procs p = .planned m i plan) (hcommit : S.commit s.files m i plan = .error e) :
      Trans S s (.load p) (s.finish p m (.error e))
  | loaded {p : ℕ} {m : Model} {i : ℕ} {plan : LoadPlan}
      (hp : s.procs p = .planned m i plan) (hcommit : S.commit s.files m i plan = .ok none) :
      Trans S s (.load p) (s.finish p m (.ok ()))
  | serialize {p : ℕ} {m : Model} {i : ℕ} {plan : LoadPlan} {target : Path} {graph : List UInt8}
      (hp : s.procs p = .planned m i plan)
      (hcommit : S.commit s.files m i plan = .ok (some (target, graph))) :
      Trans S s (.load p)
        { s with procs := Function.update s.procs p (.saving m i target graph) }
  | save {p n : ℕ} {m : Model} {i : ℕ} {target : Path} {graph : List UInt8}
      (hp : s.procs p = .saving m i target graph) :
      Trans S s (.save p n) (s.write m target (graph.take n))
  | saved {p : ℕ} {m : Model} {i : ℕ} {target : Path} {graph : List UInt8}
      (hp : s.procs p = .saving m i target graph) :
      Trans S s (.saved p) ((s.write m target graph).finish p m (.ok ()))
  | saveSkipped {p : ℕ} {m : Model} {i : ℕ} {target : Path} {graph : List UInt8}
      (hp : s.procs p = .saving m i target graph) :
      Trans S s (.saveSkipped p) (s.finish p m (.ok ()))
  | writeRefused {p : ℕ} {m : Model} {i : ℕ} {target : Path} {graph : List UInt8} {e e' : String}
      (hp : s.procs p = .saving m i target graph) :
      Trans S s (.writeRefused p e) (s.finish p m (.error e'))
  | crash {p : ℕ} : Trans S s (.crash p) { s with procs := Function.update s.procs p .idle }

variable {S} {Files : (Path → File) → Prop} {C : State → Action → Prop} {s s' : State} {a : Action}
  {m : Model} {i p : ℕ} {plan : LoadPlan} {target : Path} {graph : List UInt8}

theorem trans_of_step (h : (machine S Files).step s a = some s') : Trans S s a s' := by
  have h : step S s a = some s' := h
  cases a with
  | begin p m i usable =>
    simp only [step] at h
    split at h
    next hb =>
      rw [← Option.some.inj h]
      exact .begin hb.1 hb.2
    · cases h
  | load p =>
    simp only [step] at h
    split at h
    next hp =>
      split at h
      next hcommit =>
        rw [← Option.some.inj h]
        exact .loadFailed hp hcommit
      next hcommit =>
        rw [← Option.some.inj h]
        exact .loaded hp hcommit
      next hcommit =>
        rw [← Option.some.inj h]
        exact .serialize hp hcommit
    · cases h
  | crash p =>
    rw [← Option.some.inj h]
    exact .crash
  | save p n | saved p | saveSkipped p | writeRefused p e =>
    simp only [step] at h
    split at h
    next hp =>
      rw [← Option.some.inj h]
      constructor
      exact hp
    · cases h

/-! ### What a load knows -/

theorem fromPath_eq_some {usable : String → Bool} {dir dir' : String}
    (h : fromPath usable dir = some dir') : dir' = dir := by
  rw [fromPath] at h
  split at h
  · exact (Option.some.inj h).symm
  · cases h

/-- A directory that is usable now is the one that the environment names. -/
theorem fromEnvForModel_eq_some {toUppercase : String → String} {env : Env}
    {usable : String → Bool} {modelKey dir : String}
    (h : fromEnvForModel toUppercase env usable modelKey = some dir) :
    fromEnvForModel toUppercase env (fun _ => true) modelKey = some dir := by
  rw [fromEnvForModel] at h ⊢
  split at h
  · rw [fromPath_eq_some h]
    rfl
  · obtain ⟨dir', henv, hpath⟩ := Option.bind_eq_some_iff.1 h
    rw [fromEnv, henv, fromPath_eq_some hpath]
    rfl

/-- The file that a plan reads from the cache or writes to it. -/
def LoadPlan.file : LoadPlan → Option Path
  | .noCache => none
  | .hit cached => some cached
  | .miss target => some target

/-- A plan uses the cache file of the model, or none. -/
theorem key_of_plan {files : Path → File} {usable : String → Bool}
    (h : (S.plan files usable m).file = some target) : S.key m = some target := by
  rw [Setting.plan] at h
  rw [Setting.key]
  split at h
  · cases h
  next hext =>
    rw [if_neg hext]
    match hdir : fromEnvForModel S.toUppercase S.env usable m.name with
    | none =>
      rw [hdir] at h
      cases h
    | some dir =>
      rw [fromEnvForModel_eq_some hdir, Option.bind_some]
      rw [hdir, LoadPlan.decide] at h
      match hpath : cachePath S.disk dir m.source with
      | none =>
        rw [hpath] at h
        cases h
      | some path =>
        rw [hpath] at h
        dsimp only at h
        split at h <;> exact h

theorem not_external_of_key (h : S.key m = some target) : S.externalData m = false := by
  rw [Setting.key] at h
  split at h
  · cases h
  next hext => exact eq_false_of_ne_true hext

/-- A model that uses the cache loads with the cache disabled if its file can be read and ORT
commits it. -/
theorem loadsPlain_iff (hext : S.externalData m = false) : S.LoadsPlain m ↔
    ∃ bytes, S.disk.file m.source = .bytes bytes ∧
      S.ort.commitFromMemory S.requested bytes = .ok () := by
  simp only [Setting.LoadsPlain, Setting.commit, Setting.loadFile, hext, Bool.false_eq_true,
    if_false, applyPlan]
  constructor
  · rintro ⟨out, h⟩
    match hfile : S.disk.file m.source with
    | .absent | .unreadable _ =>
      rw [hfile] at h
      cases h
    | .bytes bytes =>
      rw [hfile] at h
      match hcommit : S.ort.commitFromMemory S.requested bytes with
      | .ok () => exact ⟨bytes, rfl, hcommit⟩
      | .error e =>
        simp only [File.read, hcommit] at h
        cases h
  · rintro ⟨bytes, hfile, hcommit⟩
    exact ⟨none, by simp [File.read, hfile, hcommit]⟩

/-- What a process knows at each program point. -/
def ProcOk (S : Setting) : Proc → Prop
  | .idle => True
  | .planned m _ plan => m ∈ S.models ∧ ∀ target, plan.file = some target → S.key m = some target
  | .saving m _ target _ => m ∈ S.models ∧ S.key m = some target ∧ S.LoadsPlain m

/-- The graph is serialized only after a miss, and the model's own file is good. -/
theorem miss_of_commit {files : Path → File}
    (h : S.commit files m i plan = .ok (some (target, graph))) :
    plan = .miss target ∧ ∃ bytes, S.disk.file m.source = .bytes bytes ∧
      S.ort.commitFromMemory S.requested bytes = .ok () ∧
      graph = S.ort.optimize S.requested bytes := by
  rw [Setting.commit] at h
  split at h
  · split at h <;> cases h
  cases plan with
  | noCache | hit _ =>
    dsimp only [applyPlan] at h
    split at h
    · cases h
    · split at h <;> cases h
  | miss t =>
    dsimp only [applyPlan, Setting.loadFile] at h
    match hfile : S.disk.file m.source with
    | .absent | .unreadable _ =>
      rw [hfile] at h
      cases h
    | .bytes bytes =>
      simp only [hfile, File.read] at h
      split at h
      · cases h
      next hcommit =>
        obtain ⟨rfl, rfl⟩ := Prod.mk.inj (Option.some.inj (Except.ok.inj h))
        exact ⟨rfl, bytes, rfl, hcommit, rfl⟩

theorem procOk_update (hs : ∀ p, ProcOk S (s.procs p)) {x : Proc} (hx : ProcOk S x) :
    ∀ q, ProcOk S (Function.update s.procs p x q) :=
  (Function.forall_update_iff s.procs fun _ x => ProcOk S x).2 ⟨hx, fun q _ => hs q⟩

/-- **What a load knows at each program point**, in every reachable state. -/
theorem procOk_of_reachable (hs : (machine S Files).Reachable C s) (p : ℕ) :
    ProcOk S (s.procs p) := by
  refine hs.invariant (P := fun s => ∀ p, ProcOk S (s.procs p)) ?_ (fun s a s' hs _ h => ?_) p
  · rintro s ⟨-, hprocs, -⟩ p
    rw [hprocs]
    trivial
  · cases trans_of_step h with
    | begin hm hp => exact procOk_update hs ⟨hm, fun _ => key_of_plan⟩
    | loadFailed | loaded | saved | saveSkipped | writeRefused | crash =>
      exact procOk_update (x := .idle) hs trivial
    | @serialize p m i plan target graph hp hcommit =>
      have hplanned := hs p
      rw [hp] at hplanned
      obtain ⟨rfl, bytes, hfile, hbytes, -⟩ := miss_of_commit hcommit
      have hkey : S.key m = some target := hplanned.2 target rfl
      exact procOk_update hs ⟨hplanned.1, hkey,
        (loadsPlain_iff (not_external_of_key hkey)).2 ⟨bytes, hfile, hbytes⟩⟩
    | save => exact hs

end OxEmbed.OnnxCache

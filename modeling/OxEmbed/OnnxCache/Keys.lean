import OxEmbed.OnnxCache.Failure

/-!
# Whose graph the cache serves

The name of a cache file is made from the name of the model file and its modification time, not
from its directory. Models in different directories, whose files have one name, share a cache file
when their modification times are the same, and then one of them is served the graph of the other.

## Main definitions

* `HitsOwn` : a load that takes a hit reads what a load of the same source has written.
* `KeysApart` : two models that share a cache file have one source.
* `NamesApart` : no two sources have the same file name and modification time.

## Main results

* `cachePath_eq_iff` : when two sources have the same cache file.
* `hitsOwn_iff_keysApart` : when all hits of all runs from an empty directory are own.
* `hitsOwn_iff_namesApart` : the same for models that share one directory.
-/

namespace OxEmbed.OnnxCache

open UnixPath (Plain components fileName)

/-! ### The names of the cache files -/

variable {disk : Disk} {dir : String} {a b : List Char} {m n : ℕ}

/-- Two lists that agree up to what follows the last separator. -/
theorem append_sep_inj {α : Type} {x y d e : List α} {c : α} (hd : c ∉ d) (he : c ∉ e)
    (h : x ++ c :: d = y ++ c :: e) : x = y ∧ d = e := by
  rcases List.append_eq_append_iff.1 h with ⟨as, rfl, has⟩ | ⟨as, rfl, has⟩
  · match as, has with
    | [], has => exact ⟨(List.append_nil x).symm, (List.cons.inj has).2⟩
    | z :: as, has =>
      refine absurd ?_ hd
      rw [(List.cons.inj has).2]
      exact List.mem_append_right _ List.mem_cons_self
  · match as, has with
    | [], has => exact ⟨List.append_nil y, (List.cons.inj has).2.symm⟩
    | z :: as, has =>
      refine absurd ?_ he
      rw [(List.cons.inj has).2]
      exact List.mem_append_right _ List.mem_cons_self

theorem dot_not_mem_toDigits (n : ℕ) : '.' ∉ Nat.toDigits 10 n := fun h =>
  absurd (Nat.isDigit_of_mem_toDigits (by decide) (by decide) h) (by decide)

theorem cacheFile_inj (h : cacheFile a m = cacheFile b n) : a = b ∧ m = n := by
  rw [cacheFile, cacheFile, ← List.cons_append, ← List.cons_append, ← List.append_assoc,
    ← List.append_assoc] at h
  obtain ⟨hab, hdigits⟩ := append_sep_inj (dot_not_mem_toDigits m) (dot_not_mem_toDigits n)
    (List.append_cancel_right h)
  refine ⟨hab, ?_⟩
  rw [← Nat.ofDigitChars_ten_toDigits (n := m), hdigits, Nat.ofDigitChars_ten_toDigits]

theorem plain_cacheFile (h : '/' ∉ a) (n : ℕ) : Plain (cacheFile a n) := by
  have hdigits : '/' ∉ Nat.toDigits 10 n := fun h =>
    absurd (Nat.isDigit_of_mem_toDigits (by decide) (by decide) h) (by decide)
  have hsuffix : ".optimized.onnx".toList =
      ['.', 'o', 'p', 't', 'i', 'm', 'i', 'z', 'e', 'd', '.', 'o', 'n', 'n', 'x'] := rfl
  have hlen : (cacheFile a n).length ≥ 3 := by
    rw [cacheFile, hsuffix]
    simp only [List.length_append, List.length_cons, List.length_nil]
    omega
  refine ⟨?_, ?_⟩
  · rw [cacheFile, hsuffix]
    simp [h, hdigits]
  · rw [UnixPath.ofPiece, if_neg, if_neg]
    · intro hdots
      rw [hdots] at hlen
      exact absurd hlen (by decide)
    · rintro (hnil | hdot)
      · rw [hnil] at hlen
        exact absurd hlen (by decide)
      · rw [hdot] at hlen
        exact absurd hlen (by decide)

theorem cachePath_eq_some {source p : Path} : cachePath disk dir source = some p ↔
    ∃ basename mtimeNs, fileName source = some basename ∧ disk.mtimeNs source = some mtimeNs ∧
      components (UnixPath.join dir.toList (cacheFile basename mtimeNs)) = p := by
  rw [cachePath]
  constructor
  · intro h
    split at h
    next basename mtimeNs hname htime => exact ⟨_, _, hname, htime, Option.some.inj h⟩
    · cases h
  · rintro ⟨basename, mtimeNs, hname, htime, rfl⟩
    rw [hname, htime]

/-- **Two sources have the same cache file in one directory if and only if they have the same file
name and modification time.** -/
theorem cachePath_eq_iff {x y : Model} {p q : Path} (hx : cachePath disk dir x.source = some p)
    (hy : cachePath disk dir y.source = some q) : p = q ↔
      fileName x.source = fileName y.source ∧ disk.mtimeNs x.source = disk.mtimeNs y.source := by
  obtain ⟨a, m, ha, hm, rfl⟩ := cachePath_eq_some.1 hx
  obtain ⟨b, n, hb, hn, rfl⟩ := cachePath_eq_some.1 hy
  have hplain {z : Model} {c : List Char} (hc : fileName z.source = some c) : '/' ∉ c :=
    (UnixPath.plain_of_mem_components (UnixPath.mem_of_fileName hc)).noSep
  rw [ha, hb, hm, hn, Option.some.injEq, Option.some.injEq]
  constructor
  · intro h
    exact cacheFile_inj
      (UnixPath.join_inj (plain_cacheFile (hplain ha) m) (plain_cacheFile (hplain hb) n) h)
  · rintro ⟨rfl, rfl⟩
    rfl

/-! ### Hits -/

variable (S : Setting)

/-- The cache directory is empty. -/
def Empty (files : Path → File) : Prop := ∀ p, files p = .absent

/-- A load that takes a hit reads what a load of the same source has written. -/
def HitsOwn (s : State) : Prop :=
  ∀ x ∈ S.models, ∀ usable cached, S.plan s.files usable x = .hit cached →
    s.writer cached = some x.source

/-- Two models that share a cache file have one source, if one of them gets to write it. -/
def KeysApart : Prop :=
  ∀ x ∈ S.models, ∀ y ∈ S.models, ∀ k, S.LoadsPlain x → S.key x = some k → S.key y = some k →
    x.source = y.source

/-- Every file in the cache directory was written by a load of a model whose cache file it is. -/
def Written (s : State) : Prop :=
  ∀ k, (s.files k).isPresent = true → ∃ x ∈ S.models, S.LoadsPlain x ∧ S.key x = some k ∧
    s.writer k = some x.source

variable {S} {s s' : State} {act : Action} {C : State → Action → Prop}

theorem written_write {x : Model} {target : Path} (content : List UInt8) (hs : Written S s)
    (hx : x ∈ S.models) (hkey : S.key x = some target) (hplain : S.LoadsPlain x) :
    Written S (s.write x target content) := by
  intro k hk
  by_cases hsame : k = target
  · subst hsame
    exact ⟨x, hx, hplain, hkey, Function.update_self ..⟩
  · rw [State.write] at hk ⊢
    dsimp only at hk ⊢
    rw [Function.update_of_ne hsame] at hk ⊢
    exact hs k hk

theorem Written.trans (hs : Written S s) (hproc : ∀ p, ProcOk S (s.procs p))
    (h : Trans S s act s') : Written S s' := by
  cases h with
  | @save p n x i target graph hp | @saved p x i target graph hp =>
    have hsaving := hproc p
    rw [hp] at hsaving
    exact written_write _ hs hsaving.1 hsaving.2.1 hsaving.2.2
  | _ => exact hs

/-- Every file in the cache directory was written by a load of a model whose cache file it is, in
every run from an empty directory. -/
theorem written_of_reachable (hs : (machine S Empty).Reachable C s) : Written S s := by
  refine hs.invariant_of_reachable ?_ fun s a s' hs ih _ h =>
    ih.trans (procOk_of_reachable hs) (trans_of_step h)
  rintro s ⟨hempty, -⟩ k hk
  rw [hempty k] at hk
  cases hk

/-- A hit is on a file that is there, and it is the cache file of the model. -/
theorem present_of_hit {files : Path → File} {usable : String → Bool} {x : Model} {k : Path}
    (h : S.plan files usable x = .hit k) : (files k).isPresent = true ∧ S.key x = some k := by
  have hfile : (S.plan files usable x).file = some k := by
    rw [h]
    rfl
  refine ⟨?_, key_of_plan hfile⟩
  rw [Setting.plan] at h
  split at h
  · cases h
  simp only [LoadPlan.decide] at h
  split at h
  · cases h
  split at h
  · cases h
  split at h
  next hpresent => rwa [← LoadPlan.hit.inj h]
  · cases h

/-- What a load decides when its directory is usable. -/
theorem plan_of_key {files : Path → File} {x : Model} {k : Path} (h : S.key x = some k) :
    S.plan files (fun _ => true) x = if (files k).isPresent then .hit k else .miss k := by
  rw [Setting.key] at h
  rw [Setting.plan]
  split at h
  · cases h
  next hext =>
    obtain ⟨dir, hdir, hpath⟩ := Option.bind_eq_some_iff.1 h
    rw [if_neg hext, hdir, LoadPlan.decide, hpath]

/-- A load of a model that shares a cache file with another leads to a hit that is not own. -/
theorem exists_hit {x y : Model} {k : Path} (hx : x ∈ S.models) (hplain : S.LoadsPlain x)
    (hkx : S.key x = some k) (hky : S.key y = some k) :
    ∃ s, (machine S Empty).Reachable (fun _ _ => True) s ∧ s.writer k = some x.source ∧
      S.plan s.files (fun _ => true) y = .hit k := by
  obtain ⟨bytes, hfile, hcommit⟩ := (loadsPlain_iff (not_external_of_key hkx)).1 hplain
  let graph := S.ort.optimize S.requested bytes
  let s₀ : State := ⟨fun _ => .absent, fun _ => .idle, [], fun _ => none⟩
  let s₁ : State := { s₀ with procs := Function.update s₀.procs 0 (.planned x 0 (.miss k)) }
  let s₂ : State := { s₁ with procs := Function.update s₁.procs 0 (.saving x 0 k graph) }
  have hbegin : (machine S Empty).step s₀ (.begin 0 x 0 fun _ => true) = some s₁ := by
    have hplan : S.plan s₀.files (fun _ => true) x = .miss k := by
      rw [plan_of_key hkx]
      rfl
    simp only [machine, step, hplan, hx, s₀, s₁, true_and, if_true]
  have hload : (machine S Empty).step s₁ (.load 0) = some s₂ := by
    have hproc : s₁.procs 0 = .planned x 0 (.miss k) := by simp [s₁]
    have hcommit : S.commit s₁.files x 0 (.miss k) = .ok (some (k, graph)) := by
      rw [Setting.commit, not_external_of_key hkx]
      simp only [Bool.false_eq_true, if_false, Setting.loadFile, hfile, File.read, applyPlan,
        hcommit, Option.map_some, graph]
    simp only [machine, step, hproc, hcommit, s₂]
  have hsave :
      (machine S Empty).step s₂ (.save 0 0) = some (s₂.write x k (graph.take 0)) := by
    have hproc : s₂.procs 0 = .saving x 0 k graph := by simp [s₂]
    simp only [machine, step, hproc]
  have hinit : (machine S Empty).Reachable (fun _ _ => True) s₀ :=
    .init ⟨fun _ => rfl, rfl, rfl, rfl⟩
  refine ⟨s₂.write x k (graph.take 0), ?_, Function.update_self .., ?_⟩
  · exact ((hinit.step trivial hbegin).step trivial hload).step trivial hsave
  · have hpresent : ((s₂.write x k (graph.take 0)).files k).isPresent = true := by
      simp [State.write, File.isPresent]
    rw [plan_of_key hky, if_pos hpresent]

/-- **All hits of all runs from an empty cache directory are own if and only if the models that
share a cache file have one source.** -/
theorem hitsOwn_iff_keysApart :
    (∀ s, (machine S Empty).Reachable (fun _ _ => True) s → HitsOwn S s) ↔ KeysApart S := by
  constructor
  · intro howns x hx y hy k hplain hkx hky
    obtain ⟨s, hs, hwriter, hhit⟩ := exists_hit hx hplain hkx hky
    have hown := howns s hs y hy _ k hhit
    rw [hwriter] at hown
    exact Option.some.inj hown
  · intro hapart s hs y hy usable k hhit
    obtain ⟨hpresent, hky⟩ := present_of_hit hhit
    obtain ⟨x, hx, hplain, hkx, hwriter⟩ := written_of_reachable hs k hpresent
    rw [hwriter, hapart x hx y hy k hplain hkx hky]

/-! ### Models that share one directory -/

variable (S) in
/-- The models keep their graphs in the directory `dir`. -/
def SharesDir (dir : String) : Prop :=
  ∀ x ∈ S.models, fromEnvForModel S.toUppercase S.env (fun _ => true) x.name = some dir

variable (S) in
/-- No two sources of models that use the cache have the same file name and modification time, if
one of them loads. -/
def NamesApart : Prop :=
  ∀ x ∈ S.models, ∀ y ∈ S.models, ∀ basename mtimeNs, S.externalData x = false →
    S.externalData y = false → S.LoadsPlain x →
    fileName x.source = some basename → fileName y.source = some basename →
    S.disk.mtimeNs x.source = some mtimeNs → S.disk.mtimeNs y.source = some mtimeNs →
    x.source = y.source

theorem key_eq_some {x : Model} {k : Path}
    (hdir : fromEnvForModel S.toUppercase S.env (fun _ => true) x.name = some dir) :
    S.key x = some k ↔ S.externalData x = false ∧ cachePath S.disk dir x.source = some k := by
  rw [Setting.key]
  split
  next hext => simp [hext]
  next hext => simp [hext, hdir]

theorem keysApart_iff_namesApart (hdir : SharesDir S dir) : KeysApart S ↔ NamesApart S := by
  constructor
  · intro hapart x hx y hy basename mtimeNs hxext hyext hplain hxname hyname hxtime hytime
    have hpath {z : Model} (hname : fileName z.source = some basename)
        (htime : S.disk.mtimeNs z.source = some mtimeNs) : cachePath S.disk dir z.source =
          some (components (UnixPath.join dir.toList (cacheFile basename mtimeNs))) :=
      cachePath_eq_some.2 ⟨basename, mtimeNs, hname, htime, rfl⟩
    exact hapart x hx y hy _ hplain ((key_eq_some (hdir x hx)).2 ⟨hxext, hpath hxname hxtime⟩)
      ((key_eq_some (hdir y hy)).2 ⟨hyext, hpath hyname hytime⟩)
  · intro hapart x hx y hy k hplain hkx hky
    obtain ⟨hxext, hxpath⟩ := (key_eq_some (hdir x hx)).1 hkx
    obtain ⟨hyext, hypath⟩ := (key_eq_some (hdir y hy)).1 hky
    obtain ⟨hname, htime⟩ := (cachePath_eq_iff hxpath hypath).1 rfl
    obtain ⟨basename, mtimeNs, hxname, hxtime, -⟩ := cachePath_eq_some.1 hxpath
    exact hapart x hx y hy basename mtimeNs hxext hyext hplain hxname (hname ▸ hxname) hxtime
      (htime ▸ hxtime)

/-- **The cache serves every model its own graph if and only if no two sources have the same file
name and modification time**, for models that share one directory: all hits of all runs from an
empty directory are own exactly then, and two sources have one cache file exactly when the two
agree. -/
theorem hitsOwn_iff_namesApart (hdir : SharesDir S dir) :
    ((∀ s, (machine S Empty).Reachable (fun _ _ => True) s → HitsOwn S s) ↔ NamesApart S) ∧
      ∀ (x y : Model) (p q : Path), cachePath S.disk dir x.source = some p →
        cachePath S.disk dir y.source = some q →
          (p = q ↔ fileName x.source = fileName y.source ∧
            S.disk.mtimeNs x.source = S.disk.mtimeNs y.source) :=
  ⟨hitsOwn_iff_keysApart.trans (keysApart_iff_namesApart hdir), fun _ _ _ _ => cachePath_eq_iff⟩

/-! ### One image with all its files of one time -/

def e5 : Model := ⟨"e5", "/e5", "model_quantized.onnx", .embed⟩

def jina : Model := ⟨"jina", "/jina", "model_quantized_static.onnx", .pool⟩

/-- All models use the cache at `/c`, and all files have one modification time. -/
def sharedSetting (models : List Model) : Setting := { bgeSetting with models := models }

theorem sharesDir_shared (models : List Model) : SharesDir (sharedSetting models) "/c" := by
  intro x _
  have hkey : "ONNX_OPT_CACHE_DIR_" ++ modelEnvKey bgeSetting.toUppercase x.name ≠
      "ONNX_OPT_CACHE_DIR" := by
    intro h
    have hlen := congrArg String.length h
    rw [String.length_append] at hlen
    have hfst : "ONNX_OPT_CACHE_DIR_".length = 19 := rfl
    have hsnd : "ONNX_OPT_CACHE_DIR".length = 18 := rfl
    omega
  have henv : bgeSetting.env
      ("ONNX_OPT_CACHE_DIR_" ++ modelEnvKey bgeSetting.toUppercase x.name) = none := by
    simp only [bgeSetting]
    exact if_neg hkey
  simp only [sharedSetting, fromEnvForModel, envDir, henv]
  rfl

/-- A static and a dynamic model file. -/
theorem hitsOwn_iff_two_names : SharesDir (sharedSetting [e5, jina]) "/c" ∧
    ∀ s, (machine (sharedSetting [e5, jina]) Empty).Reachable (fun _ _ => True) s →
      HitsOwn (sharedSetting [e5, jina]) s := by
  have hdir := sharesDir_shared [e5, jina]
  refine ⟨hdir, (hitsOwn_iff_namesApart hdir).1.2 ?_⟩
  intro x hx y hy basename mtimeNs _ _ _ hxname hyname _ _
  have hname : fileName x.source = fileName y.source := by rw [hxname, hyname]
  have hall : ∀ x ∈ [e5, jina], ∀ y ∈ [e5, jina],
      fileName x.source = fileName y.source → x.source = y.source := by decide +kernel
  exact hall x hx y hy hname

/-- Two models with the default file name: after a load of the one, the other is served its
graph. -/
theorem not_hitsOwn_one_name : SharesDir (sharedSetting [e5, bge]) "/c" ∧
    ∃ s, (machine (sharedSetting [e5, bge]) Empty).Reachable (fun _ _ => True) s ∧
      ¬ HitsOwn (sharedSetting [e5, bge]) s := by
  obtain ⟨s, hs, hhit, hwriter⟩ :
      ∃ s ∈ (machine (sharedSetting [e5, bge]) Empty).runUnder (fun _ _ => True)
        ⟨fun _ => .absent, fun _ => .idle, [], fun _ => none⟩
        [.begin 0 e5 0 (fun _ => true), .load 0, .saved 0],
        (sharedSetting [e5, bge]).plan s.files (fun _ => true) bge =
            .hit [.rootDir, .normal "c".toList,
              .normal "model_quantized.onnx.5.optimized.onnx".toList] ∧
          s.writer [.rootDir, .normal "c".toList,
              .normal "model_quantized.onnx.5.optimized.onnx".toList] = some e5.source := by
    decide +kernel
  refine ⟨sharesDir_shared _, s, .of_runUnder ⟨fun _ => rfl, rfl, rfl, rfl⟩ hs, fun h => ?_⟩
  have hown := h bge (by decide) _ _ hhit
  rw [hwriter] at hown
  exact absurd hown (by decide)

end OxEmbed.OnnxCache

import OxEmbed.OnnxCache.Basic

/-!
# When the cache makes a load fail

A load takes a hit for good as soon as the cache file exists, so a part of a graph that a crash has
left, or that another load is about to complete, fails a load that would succeed with the cache
disabled. So does a disk that refuses to store the graph on a miss.

No load fails while the graphs stay whole: the directory holds complete graphs at first, no load
takes a hit for a file that another load has written in part, a load that ends early leaves a
complete graph or another load that writes it, and the disk refuses no write. Each of these is
needed.

## Main definitions

* `Contract` : no load has failed that succeeds with the cache disabled.
* `File.Whole`, `File.Broken`, `WholeFiles` : what the cache files hold.
* `Orderly` : the condition on the crashes and on the loads that overlap.
* `Guarded` : the invariant.

## Main results

* `commit_isOk_iff` : when the load of a model succeeds that loads with the cache disabled.
* `guarded_of_reachable` : in an orderly run a cache file is whole, or a load is writing it.
* `contract_of_orderly` : orderly runs keep the contract, and a step that is not orderly breaks it
  at once or with the next load.
-/

namespace OxEmbed.OnnxCache

variable (S : Setting)

/-- A cache file is absent, or holds a complete graph that ORT has serialized. -/
def File.Whole (ort : Ort) : File → Prop
  | .absent => True
  | .unreadable _ => False
  | .bytes content => ∃ level bytes, ort.commitFromMemory level bytes = .ok () ∧
      content = ort.optimize level bytes

/-- A cache file cannot be read, or holds a proper part of a graph. -/
def File.Broken (ort : Ort) : File → Prop
  | .absent => False
  | .unreadable _ => True
  | .bytes content => ∃ level bytes n, n < (ort.optimize level bytes).length ∧
      content = (ort.optimize level bytes).take n

/-- The file to which a process serializes a graph. -/
def Proc.saves : Proc → Option Path
  | .saving _ _ target _ => some target
  | _ => none

/-- No load takes a hit for a file that another load has written in part; a load that ends before
its graph is complete leaves a complete graph, or another load that writes to the file; and the disk
refuses no write. -/
def Orderly (s : State) : Action → Prop
  | .load p =>
    match s.procs p with
    | .planned m _ (.hit cached) => S.LoadsPlain m →
      (s.files cached).Whole S.ort ∨ ∀ q, (s.procs q).saves ≠ some cached
    | _ => True
  | .saveSkipped p | .crash p => ∀ target, (s.procs p).saves = some target →
      (s.files target).Whole S.ort ∨ ∃ q ≠ p, (s.procs q).saves = some target
  | .writeRefused _ _ => False
  | _ => True

variable {S} {Files : (Path → File) → Prop} {s s' : State} {a : Action} {m : Model} {i p : ℕ}
  {plan : LoadPlan} {files : Path → File}

/-- What ORT has written of a graph is the whole of it or a proper part. -/
theorem whole_or_broken_take {ort : Ort} {level : OptLevel} {bytes : List UInt8} (n : ℕ)
    (hok : ort.commitFromMemory level bytes = .ok ()) :
    (File.bytes ((ort.optimize level bytes).take n)).Whole ort ∨
      (File.bytes ((ort.optimize level bytes).take n)).Broken ort := by
  by_cases hn : n < (ort.optimize level bytes).length
  · exact .inr ⟨level, bytes, n, hn, rfl⟩
  · exact .inl ⟨level, bytes, hok, List.take_of_length_le (Nat.le_of_not_lt hn)⟩

/-- What holds between the steps of an orderly run. -/
structure Guarded (S : Setting) (s : State) : Prop where
  /-- A cache file is whole, or some load is writing it. -/
  files : ∀ m ∈ S.models, ∀ target, S.key m = some target →
    (s.files target).Whole S.ort ∨ ∃ q, (s.procs q).saves = some target
  parts : ∀ m ∈ S.models, ∀ target, S.key m = some target →
    (s.files target).Whole S.ort ∨ (s.files target).Broken S.ort
  /-- A load that has decided for a hit has seen the file, -/
  hit : ∀ p m i target, s.procs p = .planned m i (.hit target) →
    (s.files target).isPresent = true
  /-- and what a load writes is a graph of its model. -/
  graph : ∀ p m i target graph, s.procs p = .saving m i target graph →
    ∃ bytes, S.ort.commitFromMemory S.requested bytes = .ok () ∧
      graph = S.ort.optimize S.requested bytes

/-- A hit is decided for a file that exists. -/
theorem isPresent_of_plan {usable : String → Bool} {target : Path}
    (h : S.plan files usable m = .hit target) : (files target).isPresent = true := by
  rw [Setting.plan] at h
  split at h
  · cases h
  · unfold LoadPlan.decide at h
    split at h
    · cases h
    · split at h
      · cases h
      · split at h <;> cases h
        assumption

/-- The invariant after a step that changes one process and no file. -/
theorem Guarded.update (h : Guarded S s) {x : Proc} (hfiles : s'.files = s.files)
    (hprocs : s'.procs = Function.update s.procs p x)
    (hleft : ∀ target, (s.procs p).saves = some target → x.saves = some target ∨
      (s.files target).Whole S.ort ∨ ∃ q ≠ p, (s.procs q).saves = some target)
    (hhit : ∀ m i target, x = .planned m i (.hit target) → (s.files target).isPresent = true)
    (hgraph : ∀ m i target graph, x = .saving m i target graph →
      ∃ bytes, S.ort.commitFromMemory S.requested bytes = .ok () ∧
        graph = S.ort.optimize S.requested bytes) : Guarded S s' where
  files m hm target hkey := by
    rw [hfiles, hprocs]
    have hother {q : ℕ} (hq : q ≠ p) (hsaves : (s.procs q).saves = some target) :
        ∃ q, (Function.update s.procs p x q).saves = some target :=
      ⟨q, by rwa [Function.update_of_ne hq]⟩
    rcases h.files m hm target hkey with hwhole | ⟨q, hq⟩
    · exact .inl hwhole
    · by_cases hqp : q = p
      · subst hqp
        rcases hleft target hq with hx | hwhole | ⟨q', hne, hq'⟩
        · exact .inr ⟨q, by rwa [Function.update_self]⟩
        · exact .inl hwhole
        · exact .inr (hother hne hq')
      · exact .inr (hother hqp hq)
  parts := hfiles ▸ h.parts
  hit q m i target hq := by
    rw [hfiles]
    rw [hprocs] at hq
    by_cases hqp : q = p
    · subst hqp
      exact hhit m i target (by rwa [Function.update_self] at hq)
    · rw [Function.update_of_ne hqp] at hq
      exact h.hit q m i target hq
  graph q m i target graph hq := by
    rw [hprocs] at hq
    by_cases hqp : q = p
    · subst hqp
      exact hgraph m i target graph (by rwa [Function.update_self] at hq)
    · rw [Function.update_of_ne hqp] at hq
      exact h.graph q m i target graph hq

theorem Guarded.write (h : Guarded S s) {target : Path} {graph content : List UInt8}
    (hp : s.procs p = .saving m i target graph)
    (hcontent : (File.bytes content).Whole S.ort ∨ (File.bytes content).Broken S.ort) :
    Guarded S (s.write m target content) where
  files m' hm' target' hkey := by
    by_cases ht : target' = target
    · subst ht
      exact .inr ⟨p, by rw [State.write_procs, hp]; rfl⟩
    · rw [State.write_files_of_ne _ _ _ ht]
      exact h.files m' hm' target' hkey
  parts m' hm' target' hkey := by
    by_cases ht : target' = target
    · subst ht
      rwa [State.write_files_self]
    · rw [State.write_files_of_ne _ _ _ ht]
      exact h.parts m' hm' target' hkey
  hit q m' i' target' hq := by
    by_cases ht : target' = target
    · subst ht
      rw [State.write_files_self]
      rfl
    · rw [State.write_files_of_ne _ _ _ ht]
      exact h.hit q m' i' target' hq
  graph := h.graph

/-- **Step lemma.** An orderly step keeps the invariant. -/
theorem Guarded.step (h : Guarded S s) (hC : Orderly S s a) (hstep : Trans S s a s') :
    Guarded S s' := by
  cases hstep with
  | @begin p m i usable hm hp =>
    refine h.update rfl rfl (fun target hsaves => ?_) (fun m' i' target hx => ?_) nofun
    · rw [hp] at hsaves
      cases hsaves
    · exact isPresent_of_plan (Proc.planned.inj hx).2.2
  | loadFailed hp | loaded hp =>
    refine h.update rfl rfl (fun target hsaves => ?_) nofun nofun
    rw [hp] at hsaves
    cases hsaves
  | @serialize p m i plan target graph hp hcommit =>
    refine h.update rfl rfl (fun target hsaves => ?_) nofun fun m' i' target' graph' hx => ?_
    · rw [hp] at hsaves
      cases hsaves
    · obtain ⟨-, -, -, rfl⟩ := Proc.saving.inj hx
      obtain ⟨-, bytes, -, hok, hgraph⟩ := miss_of_commit hcommit
      exact ⟨bytes, hok, hgraph⟩
  | @save p n m i target graph hp =>
    obtain ⟨bytes, hok, rfl⟩ := h.graph p m i target graph hp
    exact h.write hp (whole_or_broken_take n hok)
  | @saved p m i target graph hp =>
    have hwhole : (File.bytes graph).Whole S.ort := by
      obtain ⟨bytes, hok, hgraph⟩ := h.graph p m i target graph hp
      exact ⟨S.requested, bytes, hok, hgraph⟩
    refine (h.write hp (.inl hwhole)).update (p := p) (x := .idle) rfl rfl ?_ nofun nofun
    intro target' hsaves
    rw [State.write_procs, hp] at hsaves
    obtain rfl : target = target' := Option.some.inj hsaves
    refine .inr (.inl ?_)
    rwa [State.write_files_self]
  | saveSkipped | crash =>
    exact h.update rfl rfl (fun target hsaves => .inr (hC target hsaves)) nofun nofun
  | writeRefused => exact hC.elim

/-- Graphs are a byte that counts the following ones, and these. -/
def countedOrt : Ort where
  commitFromMemory _ bytes :=
    match bytes with
    | [] => .error "Protobuf parsing failed."
    | n :: rest => if rest.length = n.toNat then .ok () else .error "Protobuf parsing failed."
  commitFromFile _ _ := .ok ()
  optimize _ _ := [2, 7, 7]

def bge : Model := ⟨"bge", "/m", "model_quantized.onnx", .embed⟩

/-- One embed model, with the cache at `/c`. -/
def bgeSetting : Setting where
  ort := countedOrt
  disk := { mtimeNs := fun _ => some 5, file := fun _ => .bytes [1, 9], sidecar := fun _ => false }
  env key := if key = "ONNX_OPT_CACHE_DIR" then some "/c" else none
  toUppercase s := .ofList (s.toList.map Char.toUpper)
  requested := .level3
  models := [bge]

end OxEmbed.OnnxCache

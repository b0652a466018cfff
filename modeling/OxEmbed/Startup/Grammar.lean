import OxEmbed.Library.Numeral
import OxEmbed.Library.UnixPath
import OxEmbed.Startup.Config

/-!
# The grammar of the configuration

What the lists of models can say. The texts that the parsers accept are described field by field,
and every entry that a parser returns can be printed, such that the parser reads the same entry
again; so the configurations that the environment can describe are exactly those that read back
from the environment they print.

The name of the ONNX file is the one field that is joined to a directory by the program. The parser
refuses separators and the name of the directory above.

## Main definitions

* `Field`, `FileName`, `NamesFile` : the texts that can stand in an entry.
* `ModelDef.IsEntry`, `RerankerModelDef.IsEntry`, `SpladeModelDef.IsEntry` : the entries of a list.
* `EntryFormat` : a kind of entries that are read and printed.
* `Config.Describes`, `Config.variables` : what the variables say, and which they are.
* `Config.WellFormed`, `Config.toEnv` : a configuration and an environment that describes it.
* `ModelDef.onnxPath` : the file that is loaded.

## Main results

* `parseOneModel_eq_ok_iff`, `parseOneReranker_eq_ok_iff`, `parseOneSplade_eq_ok_iff` : what the
  parsers accept.
* `config_grammar` : the configurations that an environment can describe.
* `onnxPath_inside` : the file that is loaded is inside the directory of the model.
-/

namespace OxEmbed.Startup

open Text

/-! ### The fields of an entry -/

/-- A text that can stand between the colons of an entry, in a list of entries. -/
structure Field (s : String) : Prop where
  colon : ':' ∉ s.toList
  comma : ',' ∉ s.toList

/-- A file name that an entry can give. -/
structure FileName (s : String) : Prop where
  ne_empty : s ≠ ""
  slash : '/' ∉ s.toList
  backslash : '\\' ∉ s.toList
  ne_dots : s ≠ ".."
  start : TrimmedStart s
  last : TrimmedEnd s

/-- The texts of a flag. -/
def IsFlag (raw : String) (b : Bool) : Prop :=
  if b then raw = "true" ∨ raw = "1" else raw = "false" ∨ raw = "0"

/-- The fields after the sixth give this file name: the default, if there is none. -/
def NamesFile (rest : List String) (file : String) : Prop :=
  rest = [] ∧ file = "model_quantized.onnx" ∨ ∃ raw, rest = [raw] ∧ trim raw = file ∧ FileName file

/-- The text is an entry of `EMBED_MODELS` that defines the model. -/
def ModelDef.IsEntry (m : ModelDef) (e : String) : Prop :=
  ∃ dim maxLen padId flag rest,
    split ':' (trim e) = m.name :: m.dir :: dim :: maxLen :: padId :: flag :: rest ∧
      DenotesNumber usizeMax dim m.dim ∧ DenotesNumber usizeMax maxLen m.maxLen ∧
      DenotesNumber u32Max padId m.padId ∧ IsFlag flag m.hasTokenTypeIds ∧
      NamesFile rest m.onnxFilename

/-- The text is an entry of `RERANKER_MODELS` that defines the reranker. -/
def RerankerModelDef.IsEntry (r : RerankerModelDef) (e : String) : Prop :=
  ∃ maxLen flag, split ':' (trim e) = [r.name, r.dir, maxLen, flag] ∧
    DenotesNumber usizeMax maxLen r.maxLen ∧ IsFlag flag r.paddedModel

/-- The text is an entry of `SPLADE_MODELS` that defines the model. -/
def SpladeModelDef.IsEntry (d : SpladeModelDef) (e : String) : Prop :=
  ∃ maxLen, split ':' (trim e) = [d.name, d.dir, maxLen] ∧ DenotesNumber usizeMax maxLen d.maxLen

section Fields

variable {raw e what file name : String} {bound n : ℕ} {b : Bool} {rest : List String}

theorem parseField_eq_ok_iff : parseField what bound raw = .ok n ↔ DenotesNumber bound raw n := by
  rw [← parseUnsigned_eq_ok_iff_denotesNumber, parseField]
  cases parseUnsigned bound raw with
  | ok m => rfl
  | error e => exact ⟨fun h => (nomatch h), fun h => (nomatch h)⟩

theorem parseFlag_eq_ok_iff {message : String → String} :
    parseFlag message raw = .ok b ↔ IsFlag raw b := by
  rw [parseFlag]
  split
  next h =>
    cases b with
    | true => exact ⟨fun _ => h, fun _ => rfl⟩
    | false =>
      refine ⟨fun h => (nomatch h), fun hb => ?_⟩
      rcases h with rfl | rfl <;> simp [IsFlag] at hb
  next h =>
    cases b with
    | true =>
      refine ⟨fun hb => ?_, fun hb => absurd hb h⟩
      split at hb <;> exact (nomatch hb)
    | false =>
      split
      next h => exact ⟨fun _ => h, fun _ => rfl⟩
      next h' => exact ⟨fun h => (nomatch h), fun hb => absurd hb h'⟩

theorem parseOnnxFilename_eq_ok_iff (hrest : rest.length ≤ 1) :
    parseOnnxFilename name rest = .ok file ↔ NamesFile rest file := by
  match rest with
  | [] =>
    rw [parseOnnxFilename]
    constructor
    · rintro h
      exact .inl ⟨rfl, (Except.ok.inj h).symm⟩
    · rintro (⟨-, rfl⟩ | ⟨raw, hraw, -⟩)
      · rfl
      · exact (nomatch hraw)
  | [field] =>
    rw [parseOnnxFilename]
    constructor
    · intro h
      split at h
      · exact (nomatch h)
      next hempty =>
        split at h
        · exact (nomatch h)
        next hsep =>
          split at h
          · exact (nomatch h)
          next hdots =>
            obtain rfl := Except.ok.inj h
            rw [not_or] at hsep hdots
            exact .inr ⟨field, rfl, rfl, hempty, hsep.1, hsep.2, hdots.1,
              trimmedStart_trim field, trimmedEnd_trim field⟩
    · rintro (⟨hnil, -⟩ | ⟨raw, hraw, rfl, hfile⟩)
      · exact (nomatch hnil)
      · obtain rfl := (List.cons.inj hraw).1
        rw [if_neg hfile.ne_empty, if_neg (by simp [hfile.slash, hfile.backslash]), if_neg]
        rintro (h | h | h)
        · exact hfile.ne_dots h
        · exact hfile.slash (h.subset (by simp))
        · exact hfile.backslash (h.subset (by simp))
  | _ :: _ :: _ => simp at hrest

theorem parseOneModel_eq_ok_iff {m : ModelDef} : parseOneModel e = .ok m ↔ m.IsEntry e := by
  rw [parseOneModel]
  constructor
  · intro h
    split at h
    next name dir dim maxLen padId flag rest hparts =>
      split at h
      · exact (nomatch h)
      next hrest =>
        simp only [bind_eq_ok, parseField_eq_ok_iff, parseFlag_eq_ok_iff,
          parseOnnxFilename_eq_ok_iff (not_lt.1 hrest)] at h
        obtain ⟨n, hdim, l, hlen, p, hpad, b, hflag, file, hfile, heq⟩ := h
        obtain rfl := Except.ok.inj heq
        exact ⟨dim, maxLen, padId, flag, rest, hparts, hdim, hlen, hpad, hflag, hfile⟩
    · exact (nomatch h)
  · rintro ⟨dim, maxLen, padId, flag, rest, hparts, hdim, hlen, hpad, hflag, hfile⟩
    have hrest : rest.length ≤ 1 := by
      rcases hfile with ⟨rfl, -⟩ | ⟨raw, rfl, -⟩ <;> simp
    simp only [hparts]
    rw [if_neg (not_lt.2 hrest)]
    simp only [bind_eq_ok, parseField_eq_ok_iff, parseFlag_eq_ok_iff,
      parseOnnxFilename_eq_ok_iff hrest]
    exact ⟨_, hdim, _, hlen, _, hpad, _, hflag, _, hfile, rfl⟩

theorem parseOneReranker_eq_ok_iff {r : RerankerModelDef} :
    parseOneReranker e = .ok r ↔ r.IsEntry e := by
  rw [parseOneReranker]
  constructor
  · intro h
    split at h
    next name dir maxLen flag hparts =>
      simp only [bind_eq_ok, parseField_eq_ok_iff, parseFlag_eq_ok_iff] at h
      obtain ⟨l, hlen, b, hflag, heq⟩ := h
      obtain rfl := Except.ok.inj heq
      exact ⟨maxLen, flag, hparts, hlen, hflag⟩
    · exact (nomatch h)
  · rintro ⟨maxLen, flag, hparts, hlen, hflag⟩
    simp only [hparts, bind_eq_ok, parseField_eq_ok_iff, parseFlag_eq_ok_iff]
    exact ⟨_, hlen, _, hflag, rfl⟩

theorem parseOneSplade_eq_ok_iff {d : SpladeModelDef} :
    parseOneSplade e = .ok d ↔ d.IsEntry e := by
  rw [parseOneSplade]
  constructor
  · intro h
    split at h
    next name dir maxLen hparts =>
      simp only [bind_eq_ok, parseField_eq_ok_iff] at h
      obtain ⟨l, hlen, heq⟩ := h
      obtain rfl := Except.ok.inj heq
      exact ⟨maxLen, hparts, hlen⟩
    · exact (nomatch h)
  · rintro ⟨maxLen, hparts, hlen⟩
    simp only [hparts, bind_eq_ok, parseField_eq_ok_iff]
    exact ⟨_, hlen, rfl⟩

end Fields

/-! ### Printing an entry -/

def printFlag (b : Bool) : String := if b then "true" else "false"

/-- The text of an entry, with all its fields. -/
def ModelDef.entry (m : ModelDef) : String :=
  join ':' [m.name, m.dir, toString m.dim, toString m.maxLen, toString m.padId,
    printFlag m.hasTokenTypeIds, m.onnxFilename]

def RerankerModelDef.entry (r : RerankerModelDef) : String :=
  join ':' [r.name, r.dir, toString r.maxLen, printFlag r.paddedModel]

def SpladeModelDef.entry (d : SpladeModelDef) : String :=
  join ':' [d.name, d.dir, toString d.maxLen]

/-- What a list of entries can say of a model. -/
structure ModelDef.Valid (m : ModelDef) : Prop where
  name : Field m.name
  start : TrimmedStart m.name
  dir : Field m.dir
  dim : m.dim ≤ usizeMax
  maxLen : m.maxLen ≤ usizeMax
  padId : m.padId ≤ u32Max
  file : Field m.onnxFilename
  fileName : FileName m.onnxFilename

structure RerankerModelDef.Valid (r : RerankerModelDef) : Prop where
  name : Field r.name
  start : TrimmedStart r.name
  dir : Field r.dir
  maxLen : r.maxLen ≤ usizeMax

structure SpladeModelDef.Valid (d : SpladeModelDef) : Prop where
  name : Field d.name
  start : TrimmedStart d.name
  dir : Field d.dir
  maxLen : d.maxLen ≤ usizeMax

section Printing

variable {e p first last : String} {pieces : List String} {n : ℕ}

theorem field_toString : Field (toString n) where
  colon h := absurd (isDigit_of_mem_toString h) (by decide)
  comma h := absurd (isDigit_of_mem_toString h) (by decide)

theorem field_printFlag (b : Bool) : Field (printFlag b) := by
  cases b <;> exact ⟨by decide, by decide⟩

theorem isFlag_printFlag (b : Bool) : IsFlag (printFlag b) b := by
  cases b <;> exact .inl rfl

/-- The first field of an entry has no white space in front. -/
theorem trimmedStart_of_split (h : split ':' (trim e) = first :: pieces) : TrimmedStart first := by
  have htext : trim e = join ':' (first :: pieces) := by rw [← h, join_split]
  intro c hc
  refine trimmedStart_trim e c ?_
  by_cases hne : pieces = []
  · rwa [htext, hne, join_singleton]
  · rw [htext, head?_join first hne, hc]
    rfl

/-- The fields of an entry that has no comma. -/
theorem field_of_mem_split (he : ',' ∉ e.toList) (hp : p ∈ split ':' (trim e)) : Field p where
  colon := sep_notMem_of_mem_split hp
  comma hc := he (mem_of_mem_trim (mem_of_mem_split hp hc))

/-- The fields of a printed entry. -/
theorem split_trim_join (mid : List String)
    (hfields : ∀ p ∈ first :: (mid ++ [last]), Field p) (hstart : TrimmedStart first)
    (hne : last ≠ "") (hlast : TrimmedEnd last) :
    split ':' (trim (join ':' (first :: (mid ++ [last])))) = first :: (mid ++ [last]) := by
  rw [trim_eq_self, split_join (List.cons_ne_nil _ _) fun p hp => (hfields p hp).colon]
  · intro c hc
    rw [head?_join first (by simp)] at hc
    cases hfirst : first.toList.head? with
    | none =>
      rw [hfirst] at hc
      obtain rfl := Option.some.inj hc
      rfl
    | some d =>
      rw [hfirst] at hc
      exact hstart c (hfirst.trans hc)
  · intro c hc
    rw [← List.cons_append, getLast?_join hne] at hc
    exact hlast c hc

theorem comma_notMem_join (h : ∀ p ∈ pieces, Field p) : ',' ∉ (join ':' pieces).toList := by
  intro hc
  rcases mem_join hc with hcolon | ⟨p, hp, hc⟩
  · exact absurd hcolon (by decide)
  · exact (h p hp).comma hc

theorem colon_mem_join (hne : pieces ≠ []) : ':' ∈ (join ':' (first :: pieces)).toList := by
  rw [toList_join_cons first hne]
  exact List.mem_append_right _ List.mem_cons_self

end Printing

/-! ### What an entry can say -/

section Entries

variable {e file : String} {rest : List String} {m : ModelDef} {r : RerankerModelDef}
  {d : SpladeModelDef}

theorem fileName_default : FileName "model_quantized.onnx" where
  ne_empty := by decide
  slash := by decide
  backslash := by decide
  ne_dots := by decide
  start := by
    rintro c ⟨⟩
    rfl
  last := by
    rintro c ⟨⟩
    rfl

theorem NamesFile.fileName (h : NamesFile rest file) : FileName file := by
  rcases h with ⟨-, rfl⟩ | ⟨-, -, -, hfile⟩
  · exact fileName_default
  · exact hfile

theorem NamesFile.field (h : NamesFile rest file) (hrest : ∀ p ∈ rest, Field p) : Field file := by
  rcases h with ⟨-, rfl⟩ | ⟨raw, rfl, rfl, -⟩
  · exact ⟨by decide, by decide⟩
  · have hraw := hrest raw List.mem_cons_self
    exact ⟨fun hc => hraw.colon (mem_of_mem_trim hc), fun hc => hraw.comma (mem_of_mem_trim hc)⟩

theorem ModelDef.IsEntry.valid (h : m.IsEntry e) (he : ',' ∉ e.toList) : m.Valid := by
  obtain ⟨dim, maxLen, padId, flag, rest, hparts, hdim, hlen, hpad, -, hfile⟩ := h
  have hfields := fun p hp => field_of_mem_split (p := p) he hp
  rw [hparts] at hfields
  exact {
    name := hfields _ (by simp)
    start := trimmedStart_of_split hparts
    dir := hfields _ (by simp)
    dim := hdim.le
    maxLen := hlen.le
    padId := hpad.le
    file := hfile.field fun p hp => hfields p (by simp [hp])
    fileName := hfile.fileName }

/-- The fields of the printed entry. -/
theorem ModelDef.Valid.fields (h : m.Valid) :
    ∀ p ∈ [m.name, m.dir, toString m.dim, toString m.maxLen, toString m.padId,
      printFlag m.hasTokenTypeIds, m.onnxFilename], Field p := by
  simp only [List.forall_mem_cons]
  exact ⟨h.name, h.dir, field_toString, field_toString, field_toString, field_printFlag _, h.file,
    fun _ => (nomatch ·)⟩

theorem ModelDef.Valid.isEntry (h : m.Valid) : m.IsEntry m.entry :=
  ⟨_, _, _, _, [m.onnxFilename],
    split_trim_join [m.dir, toString m.dim, toString m.maxLen, toString m.padId,
      printFlag m.hasTokenTypeIds] h.fields h.start h.fileName.ne_empty h.fileName.last,
    denotesNumber_toString h.dim, denotesNumber_toString h.maxLen, denotesNumber_toString h.padId,
    isFlag_printFlag _, .inr ⟨_, rfl, trim_eq_self h.fileName.start h.fileName.last, h.fileName⟩⟩

theorem RerankerModelDef.IsEntry.valid (h : r.IsEntry e) (he : ',' ∉ e.toList) : r.Valid := by
  obtain ⟨maxLen, flag, hparts, hlen, -⟩ := h
  have hfields := fun p hp => field_of_mem_split (p := p) he hp
  rw [hparts] at hfields
  exact ⟨hfields _ (by simp), trimmedStart_of_split hparts, hfields _ (by simp), hlen.le⟩

theorem trimmedEnd_printFlag (b : Bool) : TrimmedEnd (printFlag b) := by
  cases b <;> (rintro c ⟨⟩; rfl)

theorem printFlag_ne_empty (b : Bool) : printFlag b ≠ "" := by
  cases b <;> decide

theorem RerankerModelDef.Valid.fields (h : r.Valid) :
    ∀ p ∈ [r.name, r.dir, toString r.maxLen, printFlag r.paddedModel], Field p := by
  simp only [List.forall_mem_cons]
  exact ⟨h.name, h.dir, field_toString, field_printFlag _, fun _ => (nomatch ·)⟩

theorem RerankerModelDef.Valid.isEntry (h : r.Valid) : r.IsEntry r.entry :=
  ⟨_, _, split_trim_join [r.dir, toString r.maxLen] h.fields h.start
      (printFlag_ne_empty _) (trimmedEnd_printFlag _),
    denotesNumber_toString h.maxLen, isFlag_printFlag _⟩

theorem SpladeModelDef.IsEntry.valid (h : d.IsEntry e) (he : ',' ∉ e.toList) : d.Valid := by
  obtain ⟨maxLen, hparts, hlen⟩ := h
  have hfields := fun p hp => field_of_mem_split (p := p) he hp
  rw [hparts] at hfields
  exact ⟨hfields _ (by simp), trimmedStart_of_split hparts, hfields _ (by simp), hlen.le⟩

theorem SpladeModelDef.Valid.fields (h : d.Valid) :
    ∀ p ∈ [d.name, d.dir, toString d.maxLen], Field p := by
  simp only [List.forall_mem_cons]
  exact ⟨h.name, h.dir, field_toString, fun _ => (nomatch ·)⟩

theorem SpladeModelDef.Valid.isEntry (h : d.Valid) : d.IsEntry d.entry :=
  ⟨_, split_trim_join [d.dir] h.fields h.start toString_ne_empty trimmedEnd_toString,
    denotesNumber_toString h.maxLen⟩

end Entries

/-! ### Lists of entries -/

section Lists

variable {α : Type} {parseOne : String → Except String α} {print : α → String} {Valid : α → Prop}
  {s : String} {l : List α} {a : α}

/-- The entries of a kind can be printed and read again. -/
structure EntryFormat (parseOne : String → Except String α) (print : α → String)
    (Valid : α → Prop) : Prop where
  valid {e : String} {a : α} (he : ',' ∉ e.toList) (h : parseOne e = .ok a) : Valid a
  parseOne_print {a : α} (h : Valid a) : parseOne (print a) = .ok a
  comma {a : α} (h : Valid a) : ',' ∉ (print a).toList
  colon (a : α) : ':' ∈ (print a).toList

/-- The text of a list. -/
def printEntries (print : α → String) (l : List α) : String := join ',' (l.map print)

namespace EntryFormat

variable (F : EntryFormat parseOne print Valid)

include F

theorem not_isBlank_print (a : α) : isBlank (print a) = false := by
  rw [isBlank, Bool.eq_false_iff, ne_eq, List.all_eq_true]
  exact fun h => Bool.false_ne_true (h ':' (F.colon a))

/-- What a list can say, each of its entries can say. -/
theorem valid_of_parseEntries (h : parseEntries parseOne s = .ok l) : ∀ a ∈ l, Valid a := by
  rw [parseEntries, mapM_eq_ok_iff] at h
  intro a ha
  obtain ⟨i, hi, rfl⟩ := List.getElem_of_mem ha
  have hlen : i < ((split ',' s).filter fun e => !isBlank e).length := h.length_eq ▸ hi
  have hentry := List.mem_of_mem_filter (List.getElem_mem hlen)
  exact F.valid (sep_notMem_of_mem_split hentry) (h.get hlen hi)

/-- A list that is not set has no entries. -/
theorem valid_of_parseOptional {raw : Option String}
    (h : parseOptional (parseEntries parseOne) raw = .ok l) : ∀ a ∈ l, Valid a := by
  cases raw with
  | none =>
    rw [parseOptional] at h
    rw [← Except.ok.inj h]
    exact fun _ ha => absurd ha List.not_mem_nil
  | some s => exact F.valid_of_parseEntries h

/-- **A printed list reads back.** -/
theorem parseEntries_printEntries (h : ∀ a ∈ l, Valid a) :
    parseEntries parseOne (printEntries print l) = .ok l := by
  rw [parseEntries, mapM_eq_ok_iff]
  have hpieces : (split ',' (printEntries print l)).filter (fun e => !isBlank e) = l.map print := by
    by_cases hne : l = []
    · subst hne
      rfl
    · rw [printEntries, split_join (by simpa using hne), List.filter_eq_self]
      · intro e he
        obtain ⟨a, -, rfl⟩ := List.mem_map.1 he
        rw [F.not_isBlank_print, Bool.not_false]
      · intro e he
        obtain ⟨a, ha, rfl⟩ := List.mem_map.1 he
        exact F.comma (h a ha)
  rw [hpieces, List.forall₂_map_left_iff, List.forall₂_same]
  exact fun a ha => F.parseOne_print (h a ha)

end EntryFormat

end Lists

/-- `EMBED_MODELS`. -/
theorem modelFormat : EntryFormat parseOneModel ModelDef.entry ModelDef.Valid where
  valid he h := (parseOneModel_eq_ok_iff.1 h).valid he
  parseOne_print h := parseOneModel_eq_ok_iff.2 h.isEntry
  comma h := comma_notMem_join h.fields
  colon _ := colon_mem_join (List.cons_ne_nil _ _)

/-- `RERANKER_MODELS`. -/
theorem rerankerFormat :
    EntryFormat parseOneReranker RerankerModelDef.entry RerankerModelDef.Valid where
  valid he h := (parseOneReranker_eq_ok_iff.1 h).valid he
  parseOne_print h := parseOneReranker_eq_ok_iff.2 h.isEntry
  comma h := comma_notMem_join h.fields
  colon _ := colon_mem_join (List.cons_ne_nil _ _)

/-- `SPLADE_MODELS`. -/
theorem spladeFormat : EntryFormat parseOneSplade SpladeModelDef.entry SpladeModelDef.Valid where
  valid he h := (parseOneSplade_eq_ok_iff.1 h).valid he
  parseOne_print h := parseOneSplade_eq_ok_iff.2 h.isEntry
  comma h := comma_notMem_join h.fields
  colon _ := colon_mem_join (List.cons_ne_nil _ _)

/-! ### The environment of a configuration -/

/-- What an environment can say. -/
structure Config.WellFormed (cfg : Config) : Prop where
  port : cfg.port ≤ 2 ^ 16 - 1
  models : ∀ m ∈ cfg.models, m.Valid
  rerankers : ∀ r ∈ cfg.rerankers, r.Valid
  splades : ∀ d ∈ cfg.splades, d.Valid
  intraThreads : cfg.intraThreads ≤ usizeMax

/-- An environment that sets all variables to what the configuration has. -/
def Config.toEnv (cfg : Config) : Env := fun key =>
  if key = "EMBED_PORT" then some (toString cfg.port)
  else if key = "EMBED_MODELS" then some (printEntries ModelDef.entry cfg.models)
  else if key = "EMBED_DEFAULT_MODEL" then some cfg.defaultModel
  else if key = "EMBED_INTRA_THREADS" then some (toString cfg.intraThreads)
  else if key = "RERANKER_MODELS" then some (printEntries RerankerModelDef.entry cfg.rerankers)
  else if key = "SPLADE_MODELS" then some (printEntries SpladeModelDef.entry cfg.splades)
  else if key = "EMBED_MULTI_PROCESS" then some (printFlag cfg.multiProcess)
  else if key = "EMBED_WORKER_SOCKET_DIR" then some cfg.workerSocketDir
  else none

/-- What the variables say, one by one. -/
structure Config.Describes (env : Env) (cfg : Config) : Prop where
  port : parseUnsigned (2 ^ 16 - 1) ((env "EMBED_PORT").getD "8082") = .ok cfg.port
  models : ∃ s, env "EMBED_MODELS" = some s ∧ parseModels s = .ok cfg.models
  defaultModel :
    (env "EMBED_DEFAULT_MODEL").getD (cfg.models.head cfg.models_ne_nil).name = cfg.defaultModel
  intraThreads : parseIntraThreads (env "EMBED_INTRA_THREADS") =
    .ok ⟨cfg.intraThreads, cfg.intraThreads_ne_zero⟩
  rerankers : parseOptional parseRerankers (env "RERANKER_MODELS") = .ok cfg.rerankers
  splades : parseOptional parseSplades (env "SPLADE_MODELS") = .ok cfg.splades
  multiProcess : parseMultiProcessFlag (env "EMBED_MULTI_PROCESS") = cfg.multiProcess
  workerSocketDir :
    (env "EMBED_WORKER_SOCKET_DIR").getD "/tmp/embed-workers" = cfg.workerSocketDir

/-- The variables that the configuration depends on. -/
def Config.variables : List String :=
  ["EMBED_PORT", "EMBED_MODELS", "EMBED_DEFAULT_MODEL", "EMBED_INTRA_THREADS", "RERANKER_MODELS",
    "SPLADE_MODELS", "EMBED_MULTI_PROCESS", "EMBED_WORKER_SOCKET_DIR"]

section Environment

variable {env env' : Env} {cfg : Config}

/-- **An environment is accepted with a configuration exactly when its variables describe it.** -/
theorem fromEnv_eq_ok_iff : Config.fromEnv env = .ok cfg ↔ Config.Describes env cfg := by
  rw [Config.fromEnv]
  constructor
  · intro h
    split at h
    · exact (nomatch h)
    next port hport =>
      split at h
      · exact (nomatch h)
      next models hset =>
        obtain ⟨ms, hms, h⟩ := bind_eq_ok.1 h
        split at h
        · exact (nomatch h)
        next hne =>
          dsimp only at h
          split at h
          next hdefault =>
            simp only [bind_eq_ok] at h
            obtain ⟨threads, hthreads, rs, hrs, ds, hds, heq⟩ := h
            obtain rfl := Except.ok.inj heq
            exact ⟨hport, ⟨models, hset, hms⟩, rfl, hthreads, hrs, hds, rfl, rfl⟩
          · exact (nomatch h)
  · rintro ⟨hport, ⟨models, hset, hms⟩, hdefault, hthreads, hrs, hds, hflag, hdir⟩
    have hmem := cfg.default_mem
    rw [hport]
    dsimp only
    rw [hset]
    dsimp only
    refine bind_eq_ok.2 ⟨_, hms, ?_⟩
    rw [← hdefault] at hmem
    rw [dif_neg cfg.models_ne_nil, dif_pos hmem]
    refine bind_eq_ok.2 ⟨_, hthreads, bind_eq_ok.2 ⟨_, hrs, bind_eq_ok.2 ⟨_, hds, ?_⟩⟩⟩
    simp only [hdefault, hflag, hdir]
    rfl

/-- Other variables do not matter. -/
theorem Config.Describes.congr (h : Config.Describes env cfg)
    (hsame : ∀ key ∈ Config.variables, env' key = env key) : Config.Describes env' cfg := by
  simp only [Config.variables, List.forall_mem_cons] at hsame
  obtain ⟨hport, hmodels, hdefault, hintra, hrerankers, hsplades, hflag, hdir, -⟩ := hsame
  constructor
  · rw [hport]
    exact h.port
  · rw [hmodels]
    exact h.models
  · rw [hdefault]
    exact h.defaultModel
  · rw [hintra]
    exact h.intraThreads
  · rw [hrerankers]
    exact h.rerankers
  · rw [hsplades]
    exact h.splades
  · rw [hflag]
    exact h.multiProcess
  · rw [hdir]
    exact h.workerSocketDir

theorem parseMultiProcessFlag_printFlag (b : Bool) :
    parseMultiProcessFlag (some (printFlag b)) = b := by
  cases b <;> decide

theorem parseIntraThreads_toString {n : ℕ} (hn : n ≠ 0) (hle : n ≤ usizeMax) :
    parseIntraThreads (some (toString n)) = .ok ⟨n, hn⟩ := by
  rw [parseIntraThreads, Option.getD_some, parseUnsigned_toString hle]
  simp only [dif_neg hn]

theorem le_of_parseIntraThreads {raw : Option String} {n : { n : ℕ // n ≠ 0 }}
    (h : parseIntraThreads raw = .ok n) : n.1 ≤ usizeMax := by
  rw [parseIntraThreads] at h
  split at h
  · exact (nomatch h)
  next k hk =>
    rw [← Except.ok.inj h]
    split
    · exact Nat.le_of_ble_eq_true rfl
    · exact (parseUnsigned_eq_ok_iff_denotesNumber.1 hk).le

/-- What an environment describes is well formed. -/
theorem Config.Describes.wellFormed (h : Config.Describes env cfg) : cfg.WellFormed := by
  obtain ⟨models, -, hmodels⟩ := h.models
  exact {
    port := (parseUnsigned_eq_ok_iff_denotesNumber.1 h.port).le
    models := modelFormat.valid_of_parseEntries hmodels
    rerankers := rerankerFormat.valid_of_parseOptional h.rerankers
    splades := spladeFormat.valid_of_parseOptional h.splades
    intraThreads := le_of_parseIntraThreads h.intraThreads }

/-- The environment of a well-formed configuration describes it. -/
theorem Config.WellFormed.describes (h : cfg.WellFormed) : Config.Describes cfg.toEnv cfg := by
  constructor <;> simp only [Config.toEnv, String.reduceEq, if_true, if_false, Option.getD_some]
  case port => exact parseUnsigned_toString h.port
  case models => exact ⟨_, rfl, modelFormat.parseEntries_printEntries h.models⟩
  case intraThreads => exact parseIntraThreads_toString cfg.intraThreads_ne_zero h.intraThreads
  case rerankers => exact rerankerFormat.parseEntries_printEntries h.rerankers
  case splades => exact spladeFormat.parseEntries_printEntries h.splades
  case multiProcess => exact parseMultiProcessFlag_printFlag cfg.multiProcess

/-- **The configurations that an environment can describe** are the well-formed ones, and these read
back from the environment they print. -/
theorem config_grammar (cfg : Config) :
    ((∃ env, Config.fromEnv env = .ok cfg) ↔ cfg.WellFormed) ∧
      (cfg.WellFormed ↔ Config.fromEnv cfg.toEnv = .ok cfg) :=
  ⟨⟨fun ⟨_, h⟩ => (fromEnv_eq_ok_iff.1 h).wellFormed, fun h =>
      ⟨_, fromEnv_eq_ok_iff.2 h.describes⟩⟩,
    fun h => fromEnv_eq_ok_iff.2 h.describes, fun h => (fromEnv_eq_ok_iff.1 h).wellFormed⟩

end Environment

/-! ### The file that is loaded -/

/-- `dir.join(&def.onnx_filename)`, as components. -/
def ModelDef.onnxPath (m : ModelDef) : List UnixPath.Component :=
  UnixPath.components (UnixPath.join m.dir.toList m.onnxFilename.toList)

/-- **The file that is loaded is inside the directory of the model**, whatever the environment
says. -/
theorem onnxPath_inside {env : Env} {cfg : Config} (h : Config.fromEnv env = .ok cfg) :
    ∀ m ∈ cfg.models, ∃ rest, m.onnxPath = UnixPath.components m.dir.toList ++ rest ∧
      .rootDir ∉ rest ∧ .parentDir ∉ rest := by
  intro m hm
  have hfile := ((fromEnv_eq_ok_iff.1 h).wellFormed.models m hm).fileName
  refine UnixPath.components_join_inside _ hfile.slash fun hdots => hfile.ne_dots ?_
  exact String.toList_inj.1 hdots

/-- Two dots in front of a name are a name like any other. -/
theorem onnxPath_inside_two_dots : ∃ env cfg, Config.fromEnv env = .ok cfg ∧
    cfg.models.map (·.onnxFilename) = ["..int8.onnx"] ∧
    ∀ m ∈ cfg.models, ∃ rest, m.onnxPath = UnixPath.components m.dir.toList ++ rest ∧
      .rootDir ∉ rest ∧ .parentDir ∉ rest := by
  let env : Env := fun key =>
    if key = "EMBED_MODELS" then some "bge:/models/bge:768:512:0:true: ..int8.onnx" else none
  obtain ⟨cfg, hcfg, hfile⟩ : ∃ cfg ∈ (Config.fromEnv env).toOption,
      cfg.models.map (·.onnxFilename) = ["..int8.onnx"] := by
    decide +kernel
  exact ⟨env, cfg, ok_of_toOption hcfg, hfile, onnxPath_inside (ok_of_toOption hcfg)⟩

end OxEmbed.Startup

import Mathlib.Algebra.Order.Group.Nat
import OxEmbed.Library.Text

/-!
# The configuration

`Config::from_env` of `config.rs`, with the parsers of the three lists of models. The variables
that cannot make it fail, and that the startup does not read, are left out.

## Main definitions

* `ModelDef`, `RerankerModelDef`, `SpladeModelDef` : the entries of the lists.
* `parseModels`, `parseRerankers`, `parseSplades` : the parsers.
* `Config`, `Config.fromEnv` : a configuration, which has the invariants that parsing ensures.
-/

namespace OxEmbed.Startup

open Text

/-! ### The entries -/

structure ModelDef where
  name : String
  dir : String
  onnxFilename : String
  dim : ℕ
  maxLen : ℕ
  padId : ℕ
  hasTokenTypeIds : Bool
  deriving DecidableEq, Repr

structure RerankerModelDef where
  name : String
  dir : String
  maxLen : ℕ
  paddedModel : Bool
  deriving DecidableEq, Repr

structure SpladeModelDef where
  name : String
  dir : String
  maxLen : ℕ
  deriving DecidableEq, Repr

/-! ### The parsers -/

/-- A numeric field with its name in the error. -/
def parseField (what : String) (bound : ℕ) (raw : String) : Except String ℕ :=
  match parseUnsigned bound raw with
  | .ok n => .ok n
  | .error e => .error s!"invalid {what} '{raw}': {e}"

/-- A field that holds a flag, with the text of the error. -/
def parseFlag (message : String → String) (raw : String) : Except String Bool :=
  if raw = "true" ∨ raw = "1" then .ok true
  else if raw = "false" ∨ raw = "0" then .ok false
  else .error (message raw)

/-- The file name inside the model's directory: the last field, if it is there. -/
def parseOnnxFilename (name : String) : List String → Except String String
  | [] => .ok "model_quantized.onnx"
  | field :: _ =>
    let raw := trim field
    if raw = "" then
      .error (s!"model '{name}': onnx_filename (7th segment) is empty; " ++
        "omit the segment to use the default 'model_quantized.onnx'")
    else if '/' ∈ raw.toList ∨ '\\' ∈ raw.toList then
      .error (s!"model '{name}': onnx_filename '{raw}' must be a plain filename, " ++
        "not a path (no '/' or '\\')")
    else if raw = ".." ∨ "../".toList <+: raw.toList ∨ "..\\".toList <+: raw.toList then
      .error s!"model '{name}': onnx_filename '{raw}' contains a path-traversal component"
    else .ok raw

def parseOneModel (entry : String) : Except String ModelDef :=
  let parts := split ':' (trim entry)
  match parts with
  | name :: dir :: dim :: maxLen :: padId :: hasTti :: rest =>
    if rest.length > 1 then .error (wrongCount parts.length)
    else do
      let dim ← parseField "dim" usizeMax dim
      let maxLen ← parseField "max_len" usizeMax maxLen
      let padId ← parseField "pad_id" u32Max padId
      let hasTti ← parseFlag (fun v => s!"invalid has_token_type_ids '{v}'") hasTti
      let onnxFilename ← parseOnnxFilename name rest
      return ⟨name, dir, onnxFilename, dim, maxLen, padId, hasTti⟩
  | _ => .error (wrongCount parts.length)
where
  wrongCount (n : ℕ) : String :=
    "model entry must have 6 or 7 colon-separated fields " ++
      "(name:dir:dim:max_len:pad_id:has_tti[:onnx_filename]), " ++ s!"got {n}: '{entry}'"

def parseOneReranker (entry : String) : Except String RerankerModelDef :=
  match split ':' (trim entry) with
  | [name, dir, maxLen, padded] => do
    let maxLen ← parseField "reranker max_len" usizeMax maxLen
    let paddedModel ← parseFlag
      (fun v => s!"invalid reranker padded '{v}' (expected true|false|1|0)") padded
    return ⟨name, dir, maxLen, paddedModel⟩
  | parts =>
    .error ("reranker entry must have 4 colon-separated fields (name:dir:max_len:padded), " ++
      s!"got {parts.length}: '{entry}'")

def parseOneSplade (entry : String) : Except String SpladeModelDef :=
  match split ':' (trim entry) with
  | [name, dir, maxLen] => do
    let maxLen ← parseField "splade max_len" usizeMax maxLen
    return ⟨name, dir, maxLen⟩
  | parts =>
    .error ("splade entry must have 3 colon-separated fields (name:dir:max_len), " ++
      s!"got {parts.length}: '{entry}'")

/-- A list of entries: blank ones are skipped, and the first bad one fails. -/
def parseEntries {α : Type} (parseOne : String → Except String α) (s : String) :
    Except String (List α) :=
  ((split ',' s).filter fun e => !isBlank e).mapM parseOne

/-- `parse_models_with_globals`. -/
def parseModels : String → Except String (List ModelDef) := parseEntries parseOneModel

def parseRerankers : String → Except String (List RerankerModelDef) :=
  parseEntries parseOneReranker

def parseSplades : String → Except String (List SpladeModelDef) := parseEntries parseOneSplade

/-! ### The configuration -/

/-- The environment: the value of each variable that is set to a text. -/
abbrev Env := String → Option String

structure Config where
  port : ℕ
  models : List ModelDef
  rerankers : List RerankerModelDef
  splades : List SpladeModelDef
  defaultModel : String
  intraThreads : ℕ
  multiProcess : Bool
  workerSocketDir : String
  models_ne_nil : models ≠ []
  default_mem : ∃ m ∈ models, m.name = defaultModel
  intraThreads_ne_zero : intraThreads ≠ 0

/-- A list that may be unset. -/
def parseOptional {α : Type} (parse : String → Except String (List α)) :
    Option String → Except String (List α)
  | some s => parse s
  | none => .ok []

/-- `EMBED_INTRA_THREADS`: a number; `0` stands for `2`. -/
def parseIntraThreads (raw : Option String) : Except String { n : ℕ // n ≠ 0 } :=
  match parseUnsigned usizeMax (raw.getD "2") with
  | .error e => .error s!"invalid EMBED_INTRA_THREADS: {e}"
  | .ok n => .ok (if h : n = 0 then ⟨2, by decide⟩ else ⟨n, h⟩)

def parseMultiProcessFlag : Option String → Bool
  | some v => v = "1" || v.toList.map Char.toLower = "true".toList
  | none => false

def Config.fromEnv (env : Env) : Except String Config :=
  match parseUnsigned (2 ^ 16 - 1) ((env "EMBED_PORT").getD "8082") with
  | .error e => .error s!"invalid EMBED_PORT: {e}"
  | .ok port =>
    match env "EMBED_MODELS" with
    | none => .error "EMBED_MODELS env var is required"
    | some modelsStr => do
      let models ← parseModels modelsStr
      if hne : models = [] then .error "EMBED_MODELS must define at least one model"
      else
        let defaultModel := (env "EMBED_DEFAULT_MODEL").getD (models.head hne).name
        if hdefault : ∃ m ∈ models, m.name = defaultModel then
          let intraThreads ← parseIntraThreads (env "EMBED_INTRA_THREADS")
          let rerankers ← parseOptional parseRerankers (env "RERANKER_MODELS")
          let splades ← parseOptional parseSplades (env "SPLADE_MODELS")
          return {
            port, models, rerankers, splades, defaultModel
            intraThreads := intraThreads.1
            multiProcess := parseMultiProcessFlag (env "EMBED_MULTI_PROCESS")
            workerSocketDir := (env "EMBED_WORKER_SOCKET_DIR").getD "/tmp/embed-workers"
            models_ne_nil := hne
            default_mem := hdefault
            intraThreads_ne_zero := intraThreads.2 }
        else .error s!"EMBED_DEFAULT_MODEL '{defaultModel}' not found in models"

theorem ok_of_toOption {ε α : Type} {r : Except ε α} {a : α} (h : r.toOption = some a) :
    r = .ok a := by
  match r, h with
  | .ok _, h => rw [Option.some.inj h]

end OxEmbed.Startup

import OxEmbed.Library.Framing

/-!
# Messages and frames of the worker socket

The messages that the supervisor and a worker exchange over a Unix socket, of `ipc/protocol.rs`,
and the frames that carry them, of `ipc/frame.rs`. The type `F` stands for `f32`.

The encoding of a message is the work of the `postcard` crate, a parameter of everything that
sends or receives one.

## Main definitions

* `WorkerRequest`, `WorkerResponse` : the messages, with `requestId` and `kind`.
* `Answers` : a response has the kind of the request and one output for each input, or is `Err`.
* `Postcard`, `Postcard.Lawful` : the functions of the codec, and what the code relies on.
* `writeFrame`, `readFrame` : the bytes of a message, and what a reader makes of the bytes
  received so far.

## Main results

* `writeFrame_eq_ok_iff` : a message is written exactly when its encoding is under the cap.
* `readFrame_prefix` : a reader of a prefix of some written frames gets the first message.
-/

namespace OxEmbed.Ipc

open Framing

/-! ### Requests -/

structure EmbedRequest where
  requestId : UInt64
  model : String
  texts : List String
  maxSeqLen : UInt32
  deriving DecidableEq

structure RerankRequest where
  requestId : UInt64
  model : String
  query : String
  documents : List String
  maxSeqLen : UInt32
  deriving DecidableEq

structure SpladeRequest (F : Type) where
  requestId : UInt64
  model : String
  texts : List String
  maxSeqLen : UInt32
  topK : UInt32
  minWeight : F
  deriving DecidableEq

inductive WorkerRequest (F : Type)
  | embed (r : EmbedRequest)
  | rerank (r : RerankRequest)
  | splade (r : SpladeRequest F)
  deriving DecidableEq

variable {F : Type}

namespace WorkerRequest

def requestId : WorkerRequest F → UInt64
  | .embed r => r.requestId
  | .rerank r => r.requestId
  | .splade r => r.requestId

def kind : WorkerRequest F → String
  | .embed _ => "embed"
  | .rerank _ => "rerank"
  | .splade _ => "splade"

end WorkerRequest

/-! ### Responses -/

structure EmbedResponseOk (F : Type) where
  requestId : UInt64
  vectors : List (List F)
  dims : UInt32
  deriving DecidableEq

structure RerankResponseOk (F : Type) where
  requestId : UInt64
  scores : List F
  deriving DecidableEq

structure SpladeResponseOk (F : Type) where
  requestId : UInt64
  sparse : List (List (UInt32 × F))
  deriving DecidableEq

inductive WorkerResponse (F : Type)
  | embed (ok : EmbedResponseOk F)
  | rerank (ok : RerankResponseOk F)
  | splade (ok : SpladeResponseOk F)
  | err (requestId : UInt64) (message : String)
  deriving DecidableEq

def WorkerResponse.requestId : WorkerResponse F → UInt64
  | .embed ok => ok.requestId
  | .rerank ok => ok.requestId
  | .splade ok => ok.requestId
  | .err requestId _ => requestId

/-- A response is `Err`, or has the kind of the request and one output for each input. -/
def Answers : WorkerRequest F → WorkerResponse F → Prop
  | _, .err _ _ => True
  | .embed r, .embed ok => ok.vectors.length = r.texts.length
  | .rerank r, .rerank ok => ok.scores.length = r.documents.length
  | .splade r, .splade ok => ok.sparse.length = r.texts.length
  | _, _ => False

/-! ### The codec -/

/-- The functions of `postcard` that the frames use. A decoder fails with the text of its error. -/
structure Postcard (F : Type) where
  encodeRequest : WorkerRequest F → List UInt8
  decodeRequest : List UInt8 → Except String (WorkerRequest F)
  encodeResponse : WorkerResponse F → List UInt8
  decodeResponse : List UInt8 → Except String (WorkerResponse F)

/-- What the code relies on: a message decodes to itself, and an `Err` response takes one byte for
its variant, up to ten for its id, one for the length of a short message, and the message. -/
structure Postcard.Lawful (P : Postcard F) : Prop where
  decodeRequest_encode : ∀ req, P.decodeRequest (P.encodeRequest req) = .ok req
  decodeResponse_encode : ∀ resp, P.decodeResponse (P.encodeResponse resp) = .ok resp
  length_encode_err : ∀ requestId message, message.utf8ByteSize < 128 →
    (P.encodeResponse (.err requestId message)).length ≤ message.utf8ByteSize + 12

/-! ### Frames -/

/-- The errors of the socket functions: malformed data with its text, and every other error. -/
inductive IoError
  | invalidData (message : String)
  | other
  deriving DecidableEq

/-- `MAX_FRAME_BYTES`. -/
def maxFrameBytes : ℕ := 64 * 1024 * 1024

/-- The bytes that `write_frame` writes. -/
def writeFrame {α : Type} (encode : α → List UInt8) (value : α) : Except IoError (List UInt8) :=
  if (encode value).length > maxFrameBytes then .error (.invalidData "frame too large")
  else .ok (frame (encode value))

/-- `read_frame` on the bytes received so far: `none` while it waits for more, then its result and
the bytes after the frame. -/
def readFrame {α : Type} (decode : List UInt8 → Except String α) (bs : List UInt8) :
    Option (Except IoError (α × List UInt8)) :=
  match parse maxFrameBytes bs with
  | .incomplete => none
  | .tooLarge => some (.error (.invalidData "frame too large"))
  | .payload p rest =>
    match decode p with
    | .ok value => some (.ok (value, rest))
    | .error e => some (.error (.invalidData e))

section

variable {α : Type} {encode : α → List UInt8} {decode : List UInt8 → Except String α}
  {value : α} {bs rest : List UInt8}

/-- A message is written exactly when its encoding is under the cap. -/
theorem writeFrame_eq_ok_iff : writeFrame encode value = .ok bs ↔
    (encode value).length ≤ maxFrameBytes ∧ bs = frame (encode value) := by
  rw [writeFrame]
  split
  · simp only [reduceCtorEq, false_iff]
    omega
  · rw [Except.ok.injEq, eq_comm]
    exact ⟨fun h => ⟨by omega, h⟩, And.right⟩

theorem writeFrame_eq_error_iff {e : IoError} : writeFrame encode value = .error e ↔
    maxFrameBytes < (encode value).length ∧ e = .invalidData "frame too large" := by
  rw [writeFrame]
  split
  · rw [Except.error.injEq, eq_comm]
    exact ⟨fun h => ⟨by omega, h⟩, And.right⟩
  · simp only [reduceCtorEq, false_iff]
    omega

/-- **A reader of a prefix of some written frames gets the first message of them.** -/
theorem readFrame_prefix {values : List α} {result : α × List UInt8}
    (hdecode : ∀ v ∈ values, decode (encode v) = .ok v)
    (hlen : ∀ v ∈ values, (encode v).length ≤ maxFrameBytes)
    (hbs : bs <+: frames (values.map encode)) (h : readFrame decode bs = some (.ok result)) :
    ∃ values', values = result.1 :: values' ∧ bs = frame (encode result.1) ++ result.2 ∧
      result.2 <+: frames (values'.map encode) := by
  rw [readFrame] at h
  split at h
  · cases h
  · cases h
  · rename_i p rest hparse
    obtain ⟨ps', hps, rfl, hrest⟩ := payload_of_parse_prefix (by decide)
      (by simpa using hlen) hbs hparse
    match values, hps with
    | v :: values', hps =>
      obtain ⟨rfl, rfl⟩ := List.cons.inj hps
      rw [hdecode v List.mem_cons_self] at h
      obtain rfl := Except.ok.inj (Option.some.inj h)
      exact ⟨values', rfl, rfl, hrest⟩

end

end OxEmbed.Ipc

import OxEmbed.Ipc.Protocol
import OxEmbed.Library.ByteFormat

/-!
# The wire format of the messages

The documented wire format of `postcard` for the messages of the worker socket: the number of a
variant, then its fields in the order of their declaration; integers, counts and lengths are
base-128 digits, an `f32` is its four little-endian bytes, and a text is its UTF-8 bytes after
their number. It is an instance of the codec that the model of the socket leaves open, with `f32`
values given by their bits.

## Main definitions

* `requestFormat`, `responseFormat` : the formats of the messages.
* `Postcard.wireFormat` : the codec of these formats.

## Main results

* `Postcard.wireFormat_lawful` : the codec does what the code relies on.
-/

namespace OxEmbed.Ipc

open Format

/-- The fields of each variant of `WorkerRequest`. -/
def RequestFields : Fin 3 → Type
  | 0 => EmbedRequest
  | 1 => RerankRequest
  | 2 => SpladeRequest UInt32

/-- The fields of each variant of `WorkerResponse`. -/
def ResponseFields : Fin 4 → Type
  | 0 => EmbedResponseOk UInt32
  | 1 => RerankResponseOk UInt32
  | 2 => SpladeResponseOk UInt32
  | 3 => UInt64 × String

def embedRequestFormat : Format EmbedRequest :=
  (uint64.pair (string.pair (string.many.pair uint32))).convert
    (fun p => some ⟨p.1, p.2.1, p.2.2.1, p.2.2.2⟩)
    (fun r => (r.requestId, r.model, r.texts, r.maxSeqLen)) fun _ => rfl

def rerankRequestFormat : Format RerankRequest :=
  (uint64.pair (string.pair (string.pair (string.many.pair uint32)))).convert
    (fun p => some ⟨p.1, p.2.1, p.2.2.1, p.2.2.2.1, p.2.2.2.2⟩)
    (fun r => (r.requestId, r.model, r.query, r.documents, r.maxSeqLen)) fun _ => rfl

def spladeRequestFormat : Format (SpladeRequest UInt32) :=
  (uint64.pair (string.pair (string.many.pair (uint32.pair (uint32.pair fixed32))))).convert
    (fun p => some ⟨p.1, p.2.1, p.2.2.1, p.2.2.2.1, p.2.2.2.2.1, p.2.2.2.2.2⟩)
    (fun r => (r.requestId, r.model, r.texts, r.maxSeqLen, r.topK, r.minWeight)) fun _ => rfl

def requestFieldsFormat : ∀ i, Format (RequestFields i)
  | 0 => embedRequestFormat
  | 1 => rerankRequestFormat
  | 2 => spladeRequestFormat

def requestFormat : Format (WorkerRequest UInt32) :=
  (tagged requestFieldsFormat).convert
    (fun
      | ⟨0, r⟩ => some (.embed r)
      | ⟨1, r⟩ => some (.rerank r)
      | ⟨2, r⟩ => some (.splade r))
    (fun
      | .embed r => ⟨0, r⟩
      | .rerank r => ⟨1, r⟩
      | .splade r => ⟨2, r⟩)
    fun req => by cases req <;> rfl

def embedResponseFormat : Format (EmbedResponseOk UInt32) :=
  (uint64.pair (fixed32.many.many.pair uint32)).convert
    (fun p => some ⟨p.1, p.2.1, p.2.2⟩) (fun r => (r.requestId, r.vectors, r.dims)) fun _ => rfl

def rerankResponseFormat : Format (RerankResponseOk UInt32) :=
  (uint64.pair fixed32.many).convert
    (fun p => some ⟨p.1, p.2⟩) (fun r => (r.requestId, r.scores)) fun _ => rfl

def spladeResponseFormat : Format (SpladeResponseOk UInt32) :=
  (uint64.pair (uint32.pair fixed32).many.many).convert
    (fun p => some ⟨p.1, p.2⟩) (fun r => (r.requestId, r.sparse)) fun _ => rfl

def responseFieldsFormat : ∀ i, Format (ResponseFields i)
  | 0 => embedResponseFormat
  | 1 => rerankResponseFormat
  | 2 => spladeResponseFormat
  | 3 => uint64.pair string

def responseFormat : Format (WorkerResponse UInt32) :=
  (tagged responseFieldsFormat).convert
    (fun
      | ⟨0, r⟩ => some (.embed r)
      | ⟨1, r⟩ => some (.rerank r)
      | ⟨2, r⟩ => some (.splade r)
      | ⟨3, r⟩ => some (.err r.1 r.2))
    (fun
      | .embed r => ⟨0, r⟩
      | .rerank r => ⟨1, r⟩
      | .splade r => ⟨2, r⟩
      | .err requestId message => ⟨3, requestId, message⟩)
    fun resp => by cases resp <;> rfl

/-- Decode a whole message, which may be followed by other bytes. -/
def decodeWith {α : Type} (A : Format α) (bs : List UInt8) : Except String α :=
  match A.read bs with
  | some (a, _) => .ok a
  | none => .error "malformed message"

/-- The codec of the documented wire format. -/
def Postcard.wireFormat : Postcard UInt32 where
  encodeRequest := requestFormat.write
  decodeRequest := decodeWith requestFormat
  encodeResponse := responseFormat.write
  decodeResponse := decodeWith responseFormat

theorem decodeWith_write {α : Type} (A : Format α) (a : α) : decodeWith A (A.write a) = .ok a := by
  have h := A.read_write a []
  rw [List.append_nil] at h
  rw [decodeWith, h]

theorem Postcard.wireFormat_lawful : Postcard.wireFormat.Lawful where
  decodeRequest_encode := decodeWith_write requestFormat
  decodeResponse_encode := decodeWith_write responseFormat
  length_encode_err requestId message hmessage := by
    have hid : (uint64.write requestId).length ≤ 9 + 1 :=
      length_write_varint_le 9 (requestId.toNat_lt.trans (by decide))
    have htext := length_write_string_le hmessage
    show (varint.write 3 ++ (uint64.write requestId ++ string.write message)).length ≤ _
    have htag : (varint.write 3).length = 1 := rfl
    rw [List.length_append, List.length_append]
    omega

end OxEmbed.Ipc

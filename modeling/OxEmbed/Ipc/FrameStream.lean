import OxEmbed.Ipc.WireFormat

/-!
# Streams of frames

`write_frame` and `read_frame` on whole streams: a writer that appends frames one after another,
and a reader of a stream that arrives in chunks of any sizes and then ends. `readFrame` says what
the bytes received so far amount to; here a call that waits for more bytes at the end of the
stream fails.

## Main definitions

* `writeFrameTo`, `writeFrames` : one message, and several messages, written to a stream.
* `readFrameFrom`, `readFrames` : one message, and several messages, read from a stream.

## Main results

* `writeFrameTo_eq`, `readFrameFrom_eq` : the streams agree with `writeFrame` and `readFrame`.
* `frame_stream_round_trip` : what the two functions do to streams of frames.
-/

namespace OxEmbed.Ipc

open Framing

variable {α : Type}

/-! ### Writing -/

/-- `write_frame` to a stream that holds `out` so far: the cap is checked, then the length is
written as a `u32` and the payload after it. -/
def writeFrameTo (encode : α → List UInt8) (value : α) (out : List UInt8) :
    Except IoError Unit × List UInt8 :=
  let bytes := encode value
  if bytes.length > maxFrameBytes then (.error (.invalidData "frame too large"), out)
  else
    let out := out ++ le32 (bytes.length % 2 ^ 32)
    (.ok (), out ++ bytes)

/-- Several messages one after another, up to the first that is refused. -/
def writeFrames (encode : α → List UInt8) : List α → List UInt8 → Except IoError Unit × List UInt8
  | [], out => (.ok (), out)
  | value :: values, out =>
    match writeFrameTo encode value out with
    | (.ok (), out) => writeFrames encode values out
    | (.error e, out) => (.error e, out)

/-! ### Reading -/

/-- `read_frame` from a stream that arrives in chunks and then ends: its result, and the chunks
that it has not read. -/
def readFrameFrom (decode : List UInt8 → Except String α) (cs : List (List UInt8)) :
    Except IoError (α × List (List UInt8)) :=
  match readExact 4 cs with
  | some ([b₀, b₁, b₂, b₃], cs) =>
    let len := ofLe32 b₀ b₁ b₂ b₃
    if len > maxFrameBytes then .error (.invalidData "frame too large")
    else
      match readExact len cs with
      | some (buf, cs) =>
        match decode buf with
        | .ok value => .ok (value, cs)
        | .error e => .error (.invalidData e)
      | none => .error .other
  | _ => .error .other

/-- `n` messages, one after another. -/
def readFrames (decode : List UInt8 → Except String α) :
    ℕ → List (List UInt8) → Except IoError (List α × List (List UInt8))
  | 0, cs => .ok ([], cs)
  | n + 1, cs => do
    let (value, cs) ← readFrameFrom decode cs
    let (values, cs) ← readFrames decode n cs
    return (value :: values, cs)

section

variable {encode : α → List UInt8} {decode : List UInt8 → Except String α} {value : α}
  {out : List UInt8} {cs : List (List UInt8)}

/-- The length of a payload under the cap survives the cast to `u32`. -/
theorem writeFrameTo_eq : writeFrameTo encode value out =
    match writeFrame encode value with
    | .ok bs => (.ok (), out ++ bs)
    | .error e => (.error e, out) := by
  rw [writeFrameTo, writeFrame]
  split
  · rfl
  · rename_i hcap
    have hlen : (encode value).length < 2 ^ 32 := by
      have hmax : maxFrameBytes < 2 ^ 32 := by decide
      omega
    simp only [Nat.mod_eq_of_lt hlen, frame, List.append_assoc]

theorem writeFrameTo_of_le (h : (encode value).length ≤ maxFrameBytes) :
    writeFrameTo encode value out = (.ok (), out ++ frame (encode value)) := by
  rw [writeFrameTo_eq, writeFrame_eq_ok_iff.2 ⟨h, rfl⟩]

theorem writeFrameTo_of_gt (h : maxFrameBytes < (encode value).length) :
    writeFrameTo encode value out = (.error (.invalidData "frame too large"), out) := by
  rw [writeFrameTo_eq, writeFrame_eq_error_iff.2 ⟨h, rfl⟩]

/-- Messages under the cap are all written, frame after frame. -/
theorem writeFrames_of_le {values : List α} (h : ∀ v ∈ values, (encode v).length ≤ maxFrameBytes) :
    writeFrames encode values out = (.ok (), out ++ frames (values.map encode)) := by
  induction values generalizing out with
  | nil => rw [writeFrames, List.map_nil, frames_nil, List.append_nil]
  | cons v values ih =>
    rw [writeFrames, writeFrameTo_of_le (h v List.mem_cons_self)]
    show writeFrames encode values (out ++ frame (encode v)) = _
    rw [ih fun v hv => h v (List.mem_cons_of_mem _ hv), List.map_cons, frames_cons,
      List.append_assoc]

/-- A stream of fewer than four bytes ends within the header. -/
theorem readFrameFrom_of_lt (h : cs.flatten.length < 4) :
    readFrameFrom decode cs = .error .other := by
  rw [readFrameFrom, readExact_of_lt h]

variable (decode) in
/-- The length is checked before any byte of the payload is read. -/
theorem readFrameFrom_cons {b₀ b₁ b₂ b₃ : UInt8} {body : List UInt8}
    (h : cs.flatten = b₀ :: b₁ :: b₂ :: b₃ :: body) : ∃ cs', cs'.flatten = body ∧
      readFrameFrom decode cs =
        if ofLe32 b₀ b₁ b₂ b₃ > maxFrameBytes then .error (.invalidData "frame too large")
        else
          match readExact (ofLe32 b₀ b₁ b₂ b₃) cs' with
          | some (buf, cs) =>
            match decode buf with
            | .ok value => .ok (value, cs)
            | .error e => .error (.invalidData e)
          | none => .error .other := by
  have hlen : 4 ≤ cs.flatten.length := by
    rw [h]
    simp only [List.length_cons]
    omega
  obtain ⟨cs', hread, hflat⟩ := readExact_of_le hlen
  rw [h] at hread hflat
  refine ⟨cs', hflat, ?_⟩
  rw [readFrameFrom, hread]
  rfl

/-- **The reader of a stream that ends does what `readFrame` says of the bytes of the stream.** It
fails where `readFrame` would wait for more, however the bytes are cut into chunks. -/
theorem readFrameFrom_eq (decode : List UInt8 → Except String α) (cs : List (List UInt8)) :
    (readFrameFrom decode cs).map (fun r => (r.1, r.2.flatten)) =
      (readFrame decode cs.flatten).getD (.error .other) := by
  match hcs : cs.flatten with
  | [] | [_] | [_, _] | [_, _, _] =>
    rw [readFrameFrom_of_lt (by simp [hcs])]
    rfl
  | b₀ :: b₁ :: b₂ :: b₃ :: body =>
    obtain ⟨cs', rfl, hread⟩ := readFrameFrom_cons decode hcs
    rw [hread, readFrame, parse]
    by_cases hcap : ofLe32 b₀ b₁ b₂ b₃ > maxFrameBytes
    · rw [if_pos hcap, if_pos hcap]
      rfl
    rw [if_neg hcap, if_neg hcap]
    by_cases hlen : cs'.flatten.length < ofLe32 b₀ b₁ b₂ b₃
    · rw [readExact_of_lt hlen, if_pos hlen]
      rfl
    · obtain ⟨cs'', hexact, hflat⟩ := readExact_of_le (not_lt.1 hlen)
      rw [hexact, if_neg hlen, ← hflat]
      dsimp only
      cases decode (cs'.flatten.take (ofLe32 b₀ b₁ b₂ b₃)) with
      | ok value => rfl
      | error e => rfl

/-- A message at the head of a stream is read, and the bytes after its frame are left. -/
theorem readFrameFrom_frame {rest : List UInt8} (hdecode : decode (encode value) = .ok value)
    (hlen : (encode value).length ≤ maxFrameBytes)
    (h : cs.flatten = frame (encode value) ++ rest) :
    ∃ cs', readFrameFrom decode cs = .ok (value, cs') ∧ cs'.flatten = rest := by
  have heq := readFrameFrom_eq decode cs
  rw [h, readFrame, parse_frame_append (by decide) hlen] at heq
  simp only [hdecode, Option.getD_some] at heq
  cases hread : readFrameFrom decode cs with
  | ok result =>
    rw [hread] at heq
    obtain ⟨hvalue, hrest⟩ := Prod.mk.inj (Except.ok.inj heq)
    exact ⟨result.2, by rw [← hvalue], hrest⟩
  | error e =>
    rw [hread] at heq
    cases heq

/-- Where `readFrame` fails, or waits for more bytes, the reader of a stream fails. -/
theorem readFrameFrom_eq_error {e : IoError}
    (h : (readFrame decode cs.flatten).getD (.error .other) = .error e) :
    readFrameFrom decode cs = .error e := by
  have heq := readFrameFrom_eq decode cs
  rw [h] at heq
  match hread : readFrameFrom decode cs, heq with
  | .error e', heq => rw [Except.error.inj heq]

/-- The messages that were written are read again in their order, to the end of the stream. -/
theorem readFrames_frames {values : List α} (hcodec : ∀ v, decode (encode v) = .ok v)
    (hlen : ∀ v ∈ values, (encode v).length ≤ maxFrameBytes)
    (h : cs.flatten = frames (values.map encode)) :
    ∃ cs', readFrames decode values.length cs = .ok (values, cs') ∧ cs'.flatten = [] := by
  induction values generalizing cs with
  | nil => exact ⟨cs, rfl, h⟩
  | cons v values ih =>
    rw [List.map_cons, frames_cons] at h
    obtain ⟨cs', hread, hflat⟩ := readFrameFrom_frame (hcodec v) (hlen v List.mem_cons_self) h
    obtain ⟨cs'', hreads, hend⟩ := ih (fun v hv => hlen v (List.mem_cons_of_mem _ hv)) hflat
    refine ⟨cs'', ?_, hend⟩
    rw [List.length_cons, readFrames, hread]
    show (do let (values, cs) ← readFrames decode values.length cs'; return (v :: values, cs)) = _
    rw [hreads]
    rfl

/-- A header over the cap is refused, whatever follows it. -/
theorem readFrameFrom_of_gt {len : ℕ} {rest : List UInt8} (hlen : len < 2 ^ 32)
    (hcap : maxFrameBytes < len) (h : cs.flatten = le32 len ++ rest) :
    readFrameFrom decode cs = .error (.invalidData "frame too large") := by
  obtain ⟨cs', -, hread⟩ := readFrameFrom_cons decode h
  rw [hread, ofLe32_le32 hlen, if_pos hcap]

/-- A stream that ends within a frame has no message. -/
theorem readFrameFrom_of_prefix {p : List UInt8} (hp : p.length < 2 ^ 32)
    (h : cs.flatten <+: frame p) (hne : cs.flatten ≠ frame p) :
    ∃ e, readFrameFrom decode cs = .error e := by
  have hparse (q rest) : parse maxFrameBytes cs.flatten ≠ .payload q rest :=
    parse_ne_payload_of_prefix hp h hne
  match hcase : parse maxFrameBytes cs.flatten with
  | .incomplete =>
    exact ⟨.other, readFrameFrom_eq_error (by rw [readFrame, hcase]; rfl)⟩
  | .tooLarge =>
    exact ⟨_, readFrameFrom_eq_error (by rw [readFrame, hcase]; rfl)⟩
  | .payload q rest => exact absurd hcase (hparse q rest)

/-- A message is written exactly when its frame is read again. -/
theorem writeFrameTo_ok_iff {len : UInt32} (hcodec : ∀ v, decode (encode v) = .ok v)
    (hlen : (encode value).length = len.toNat)
    (h : cs.flatten = le32 len.toNat ++ encode value) :
    (writeFrameTo encode value out).1 = .ok () ↔
      ∃ cs', readFrameFrom decode cs = .ok (value, cs') := by
  rcases le_or_gt (encode value).length maxFrameBytes with hcap | hcap
  · rw [writeFrameTo_of_le hcap]
    refine iff_of_true rfl ?_
    have hflat : cs.flatten = frame (encode value) ++ [] := by
      rw [h, frame, hlen, List.append_nil]
    obtain ⟨cs', hread, -⟩ := readFrameFrom_frame (hcodec value) hcap hflat
    exact ⟨cs', hread⟩
  · rw [writeFrameTo_of_gt hcap, readFrameFrom_of_gt len.toNat_lt (by omega) h]
    simp

/-- The header that is written denotes the length of the payload. -/
theorem writeFrameTo_header (h : (writeFrameTo encode value out).1 = .ok ()) :
    ∃ len : UInt32, len.toNat = (encode value).length ∧
      (writeFrameTo encode value out).2 = out ++ (le32 len.toNat ++ encode value) := by
  rcases le_or_gt (encode value).length maxFrameBytes with hcap | hcap
  · have hmax : maxFrameBytes < 2 ^ 32 := by decide
    have hlen : (UInt32.ofNat (encode value).length).toNat = (encode value).length := by
      rw [UInt32.toNat_ofNat', Nat.mod_eq_of_lt (by omega)]
    refine ⟨UInt32.ofNat (encode value).length, hlen, ?_⟩
    rw [writeFrameTo_of_le hcap, hlen, frame]
  · rw [writeFrameTo_of_gt hcap] at h
    cases h

end

/-- **Streams of frames keep their messages.** Messages under the cap are written, and a reader
gets them back in their order whatever the chunks are, and then finds the end of the stream. The
writer and the reader accept the same lengths, and the header that is written denotes the length
of the payload. A message over the cap is refused and nothing is written. A stream that ends
within a frame, and one whose header is over the cap, is an error. -/
theorem frame_stream_round_trip (encode : α → List UInt8) (decode : List UInt8 → Except String α)
    (hcodec : ∀ v, decode (encode v) = .ok v) :
    (∀ (values : List α) (cs : List (List UInt8)),
      (∀ v ∈ values, (encode v).length ≤ maxFrameBytes) →
      cs.flatten = (writeFrames encode values []).2 →
      (writeFrames encode values []).1 = .ok () ∧
      ∃ cs', readFrames decode values.length cs = .ok (values, cs') ∧ cs'.flatten = [] ∧
        readFrameFrom decode cs' = .error .other) ∧
    (∀ (v : α) (len : UInt32) (cs : List (List UInt8)) (out : List UInt8),
      (encode v).length = len.toNat → cs.flatten = le32 len.toNat ++ encode v →
      ((writeFrameTo encode v out).1 = .ok () ↔
        ∃ cs', readFrameFrom decode cs = .ok (v, cs'))) ∧
    (∀ (v : α) (out : List UInt8), (writeFrameTo encode v out).1 = .ok () →
      ∃ len : UInt32, len.toNat = (encode v).length ∧
        (writeFrameTo encode v out).2 = out ++ (le32 len.toNat ++ encode v)) ∧
    (∀ (v : α) (out : List UInt8), maxFrameBytes < (encode v).length →
      writeFrameTo encode v out = (.error (.invalidData "frame too large"), out)) ∧
    (∀ (p : List UInt8) (cs : List (List UInt8)), p.length < 2 ^ 32 →
      cs.flatten <+: frame p → cs.flatten ≠ frame p →
      ∃ e, readFrameFrom decode cs = .error e) ∧
    (∀ (len : UInt32) (rest : List UInt8) (cs : List (List UInt8)),
      maxFrameBytes < len.toNat → cs.flatten = le32 len.toNat ++ rest →
      readFrameFrom decode cs = .error (.invalidData "frame too large")) := by
  refine ⟨fun values cs hlen hcs => ?_, fun v len cs out hlen hcs => ?_,
    fun v out h => writeFrameTo_header h, fun v out h => writeFrameTo_of_gt h,
    fun p cs hp hcs hne => readFrameFrom_of_prefix hp hcs hne,
    fun len rest cs hcap hcs => readFrameFrom_of_gt len.toNat_lt hcap hcs⟩
  · rw [writeFrames_of_le hlen, List.nil_append] at hcs
    obtain ⟨cs', hread, hend⟩ := readFrames_frames hcodec hlen hcs
    have hlast : readFrameFrom decode cs' = .error .other :=
      readFrameFrom_of_lt (by rw [hend]; decide)
    exact ⟨by rw [writeFrames_of_le hlen], cs', hread, hend, hlast⟩
  · exact writeFrameTo_ok_iff hcodec hlen hcs

/-- Two requests in the documented wire format, delivered byte by byte. -/
theorem frame_stream_round_trip_requests :
    ∃ cs', readFrames (decodeWith requestFormat) 2
      ((writeFrames requestFormat.write [.embed ⟨1, "e5", ["hello"], 128⟩,
        .rerank ⟨2, "bge", "query", ["a", "b"], 512⟩] []).2.map ([·])) =
      .ok ([.embed ⟨1, "e5", ["hello"], 128⟩, .rerank ⟨2, "bge", "query", ["a", "b"], 512⟩], cs') ∧
      cs'.flatten = [] := by
  obtain ⟨-, cs', hread, hend, -⟩ :=
    (frame_stream_round_trip requestFormat.write (decodeWith requestFormat)
      (decodeWith_write requestFormat)).1 [.embed ⟨1, "e5", ["hello"], 128⟩,
        .rerank ⟨2, "bge", "query", ["a", "b"], 512⟩] _ (by decide +kernel)
      (by rw [← List.flatMap_def, List.flatMap_singleton'])
  exact ⟨cs', hread, hend⟩

end OxEmbed.Ipc

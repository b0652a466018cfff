import Mathlib.Data.List.Basic
import Mathlib.Data.List.Infix
import Mathlib.Algebra.Order.Group.Nat

/-!
# Length-prefixed frames on a byte stream

A frame is the length of a payload as four little-endian bytes, followed by the payload. A reader
that has received some bytes of a stream of frames finds the first frame incomplete, over the
cap on payloads, or complete; it never mistakes the beginning of a frame for a frame.

## Main definitions

* `le32`, `ofLe32` : four little-endian bytes of a number, and the number they denote.
* `frame`, `frames` : the bytes of one payload, and of several payloads one after another.
* `Parsed`, `parse` : what a reader makes of the bytes received so far.
* `readExact` : the first bytes of a stream that arrives in chunks.

## Main results

* `parse_frame_append` : a complete frame parses to its payload and the bytes after it.
* `payload_of_parse_prefix` : whatever parses out of a prefix of a stream of frames is the first
  payload of the stream.
* `readExact_of_le`, `readExact_of_lt` : how the bytes of a stream are cut does not matter.
-/

namespace OxEmbed.Framing

/-- The four little-endian bytes of a number below `2 ^ 32`. -/
def le32 (n : ℕ) : List UInt8 :=
  [.ofNat n, .ofNat (n / 2 ^ 8), .ofNat (n / 2 ^ 16), .ofNat (n / 2 ^ 24)]

/-- The number that four little-endian bytes denote. -/
def ofLe32 (b₀ b₁ b₂ b₃ : UInt8) : ℕ :=
  b₀.toNat + b₁.toNat * 2 ^ 8 + b₂.toNat * 2 ^ 16 + b₃.toNat * 2 ^ 24

theorem ofLe32_le32 {n : ℕ} (hn : n < 2 ^ 32) :
    ofLe32 (.ofNat n) (.ofNat (n / 2 ^ 8)) (.ofNat (n / 2 ^ 16)) (.ofNat (n / 2 ^ 24)) = n := by
  simp only [ofLe32, UInt8.toNat_ofNat']
  omega

theorem le32_ofLe32 (b₀ b₁ b₂ b₃ : UInt8) : le32 (ofLe32 b₀ b₁ b₂ b₃) = [b₀, b₁, b₂, b₃] := by
  have h₀ := b₀.toNat_lt
  have h₁ := b₁.toNat_lt
  have h₂ := b₂.toNat_lt
  have h₃ := b₃.toNat_lt
  simp only [le32, ofLe32, List.cons.injEq, ← UInt8.toNat_inj, UInt8.toNat_ofNat', and_true]
  omega

/-- The bytes of a frame. -/
def frame (payload : List UInt8) : List UInt8 := le32 payload.length ++ payload

/-- The bytes of several frames one after another. -/
def frames (payloads : List (List UInt8)) : List UInt8 := payloads.flatMap frame

@[simp]
theorem length_frame (payload : List UInt8) : (frame payload).length = payload.length + 4 := by
  rw [frame, List.length_append, Nat.add_comm]
  rfl

@[simp]
theorem frames_nil : frames [] = [] := rfl

@[simp]
theorem frames_cons (p : List UInt8) (ps : List (List UInt8)) :
    frames (p :: ps) = frame p ++ frames ps := rfl

@[simp]
theorem frames_append (ps qs : List (List UInt8)) : frames (ps ++ qs) = frames ps ++ frames qs :=
  List.flatMap_append

/-- What a reader makes of the bytes received so far. -/
inductive Parsed
  /-- The first frame is not complete. -/
  | incomplete
  /-- The header announces a payload over the cap. -/
  | tooLarge
  /-- A complete frame, and the bytes after it. -/
  | payload (p rest : List UInt8)
  deriving DecidableEq

/-- Read the first frame of the bytes received so far, with a cap on its payload. -/
def parse (cap : ℕ) : List UInt8 → Parsed
  | b₀ :: b₁ :: b₂ :: b₃ :: body =>
    let len := ofLe32 b₀ b₁ b₂ b₃
    if len > cap then .tooLarge
    else if body.length < len then .incomplete
    else .payload (body.take len) (body.drop len)
  | _ => .incomplete

variable {cap : ℕ} {p q bs rest : List UInt8}

/-- A frame of a payload under the cap, complete or cut off after its header. -/
theorem parse_le32_append (hcap : cap < 2 ^ 32) (hp : p.length ≤ cap) (body : List UInt8) :
    parse cap (le32 p.length ++ body) =
      if body.length < p.length then .incomplete
      else .payload (body.take p.length) (body.drop p.length) := by
  rw [le32, List.cons_append, List.cons_append, List.cons_append, List.cons_append,
    List.nil_append, parse, ofLe32_le32 (by omega), if_neg (by omega)]

/-- A complete frame parses to its payload and the bytes after it. -/
theorem parse_frame_append (hcap : cap < 2 ^ 32) (hp : p.length ≤ cap) (rest : List UInt8) :
    parse cap (frame p ++ rest) = .payload p rest := by
  rw [frame, List.append_assoc, parse_le32_append hcap hp, if_neg (by simp), List.take_left,
    List.drop_left]

/-- A parsed frame stands at the beginning of the bytes. -/
theorem eq_of_parse (h : parse cap bs = .payload q rest) :
    bs = frame q ++ rest ∧ q.length ≤ cap := by
  match bs, h with
  | b₀ :: b₁ :: b₂ :: b₃ :: body, h =>
    rw [parse] at h
    split at h
    · cases h
    · split at h
      · cases h
      · obtain ⟨rfl, rfl⟩ := Parsed.payload.inj h
        have hlen : (body.take (ofLe32 b₀ b₁ b₂ b₃)).length = ofLe32 b₀ b₁ b₂ b₃ := by
          rw [List.length_take]
          omega
        rw [frame, hlen, le32_ofLe32, List.append_assoc, List.take_append_drop]
        exact ⟨rfl, by omega⟩

/-- **Whatever parses out of a prefix of a stream of frames is the first payload of the stream.**
The bytes after it are a prefix of the remaining stream. -/
theorem payload_of_parse_prefix {ps : List (List UInt8)} (hcap : cap < 2 ^ 32)
    (hps : ∀ p ∈ ps, p.length ≤ cap) (hbs : bs <+: frames ps)
    (h : parse cap bs = .payload q rest) :
    ∃ ps', ps = q :: ps' ∧ bs = frame q ++ rest ∧ rest <+: frames ps' := by
  obtain ⟨rfl, hq⟩ := eq_of_parse h
  obtain ⟨t, ht⟩ := hbs
  rw [List.append_assoc] at ht
  have hparse := parse_frame_append hcap hq (rest ++ t)
  match ps, ht with
  | [], ht => simp [frame, le32] at ht
  | p :: ps', ht =>
    rw [ht, frames_cons, parse_frame_append hcap (hps p List.mem_cons_self)] at hparse
    obtain ⟨rfl, hrest⟩ := Parsed.payload.inj hparse
    exact ⟨ps', rfl, rfl, t, hrest.symm⟩

/-- A prefix of a frame that is not the whole frame is never a complete frame. -/
theorem parse_ne_payload_of_prefix {p q rest : List UInt8} (hp : p.length < 2 ^ 32)
    (hbs : bs <+: frame p) (hne : bs ≠ frame p) : parse cap bs ≠ .payload q rest := by
  intro h
  obtain ⟨rfl, -⟩ := eq_of_parse h
  obtain ⟨t, ht⟩ := hbs
  have hlen := congrArg List.length ht
  simp only [List.length_append, length_frame] at hlen
  -- both frames begin with the same header, so they announce the same length
  have hq : q.length = p.length := by
    have hhead := congrArg (List.take 4) ht
    rw [frame, frame, List.append_assoc, List.append_assoc, List.take_append_of_le_length (by rfl),
      List.take_append_of_le_length (by rfl)] at hhead
    have h4 : le32 q.length = le32 p.length := hhead
    simp only [le32, List.cons.injEq, and_true] at h4
    obtain ⟨h₀, h₁, h₂, h₃⟩ := h4
    rw [← ofLe32_le32 (show q.length < 2 ^ 32 by omega), h₀, h₁, h₂, h₃, ofLe32_le32 hp]
  have hrest : rest = [] ∧ t = [] := by
    constructor <;> apply List.eq_nil_of_length_eq_zero <;> omega
  obtain ⟨rfl, rfl⟩ := hrest
  exact hne (by simpa using ht)

/-! ### Delivery in chunks -/

/-- The first `n` bytes of a stream that arrives in chunks, and the chunks after them; `none` when
the stream ends before. A chunk that is longer than what is asked for keeps its other bytes. -/
def readExact : ℕ → List (List UInt8) → Option (List UInt8 × List (List UInt8))
  | 0, cs => some ([], cs)
  | _ + 1, [] => none
  | n + 1, c :: cs =>
    if c.length ≤ n + 1 then
      (readExact (n + 1 - c.length) cs).map fun r => (c ++ r.1, r.2)
    else some (c.take (n + 1), c.drop (n + 1) :: cs)

variable {n : ℕ} {cs : List (List UInt8)}

/-- Reading from a stream that is long enough gives its first bytes and leaves the others. -/
theorem readExact_of_le (h : n ≤ cs.flatten.length) : ∃ cs', readExact n cs =
    some (cs.flatten.take n, cs') ∧ cs'.flatten = cs.flatten.drop n := by
  induction cs generalizing n with
  | nil =>
    obtain rfl : n = 0 := by simpa using h
    exact ⟨[], rfl, rfl⟩
  | cons c cs ih =>
    rw [List.flatten_cons, List.length_append] at h
    rw [List.flatten_cons, List.take_append, List.drop_append]
    match n with
    | 0 => exact ⟨c :: cs, by simp [readExact], by simp⟩
    | n + 1 =>
      rw [readExact]
      split
      · rename_i hc
        obtain ⟨cs', hread, hflat⟩ := ih (n := n + 1 - c.length) (by omega)
        refine ⟨cs', ?_, ?_⟩
        · rw [hread, List.take_of_length_le hc, Option.map_some]
        · rw [hflat, List.drop_of_length_le hc, List.nil_append]
      · rename_i hc
        have hzero : n + 1 - c.length = 0 := by omega
        refine ⟨c.drop (n + 1) :: cs, ?_, ?_⟩
        · rw [hzero, List.take_zero, List.append_nil]
        · rw [hzero, List.drop_zero, List.flatten_cons]

/-- A stream that is too short has no such bytes. -/
theorem readExact_of_lt (h : cs.flatten.length < n) : readExact n cs = none := by
  induction cs generalizing n with
  | nil =>
    match n, h with
    | n + 1, _ => rfl
  | cons c cs ih =>
    rw [List.flatten_cons, List.length_append] at h
    match n with
    | n + 1 => rw [readExact, if_pos (by omega), ih (by omega), Option.map_none]

end OxEmbed.Framing

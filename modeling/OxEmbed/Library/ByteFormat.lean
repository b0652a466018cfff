import Mathlib.Algebra.Order.Ring.Nat
import Mathlib.Data.Fintype.Defs
import OxEmbed.Library.Framing

/-!
# Self-delimiting byte formats

A format writes values as bytes and reads them back from the front of a byte string, leaving the
bytes after the value. The round trip is a field of the format, so formats built from others by
the combinators here are right by construction.

The numbers are base-128 digits, least significant first, with the high bit set on all but the
last digit. Counts, tags and lengths are such numbers.

## Main definitions

* `Format` : a format with its round trip.
* `Format.varint`, `Format.uint32`, `Format.uint64`, `Format.fixed32`, `Format.string` : scalars.
* `Format.pair`, `Format.many`, `Format.tagged`, `Format.convert` : pairs, counted sequences,
  tagged unions, and a format of one type carried to another.

## Main results

* `length_write_varint_le` : a number below `128 ^ (j + 1)` takes at most `j + 1` bytes.
-/

namespace OxEmbed

universe u v

/-- A self-delimiting byte format. -/
structure Format (α : Type u) where
  write : α → List UInt8
  /-- Read a value from the front of some bytes. -/
  read : List UInt8 → Option (α × List UInt8)
  read_write : ∀ a rest, read (write a ++ rest) = some (a, rest)

namespace Format

attribute [simp] read_write

/-! ### Numbers -/

/-- The base-128 digits of a number, in at most `k + 1` bytes. -/
def varintBytes : ℕ → ℕ → List UInt8
  | 0, n => [.ofNat n]
  | k + 1, n => if n < 128 then [.ofNat n] else .ofNat (n % 128 + 128) :: varintBytes k (n / 128)

def readVarint : List UInt8 → Option (ℕ × List UInt8)
  | [] => none
  | b :: rest =>
    if b.toNat < 128 then some (b.toNat, rest)
    else (readVarint rest).map fun r => (b.toNat - 128 + 128 * r.1, r.2)

theorem readVarint_varintBytes {k n : ℕ} (hn : n < 128 ^ (k + 1)) (rest : List UInt8) :
    readVarint (varintBytes k n ++ rest) = some (n, rest) := by
  induction k generalizing n with
  | zero =>
    rw [varintBytes, List.singleton_append, readVarint, UInt8.toNat_ofNat', if_pos (by omega),
      Nat.mod_eq_of_lt (by omega)]
  | succ k ih =>
    rw [varintBytes]
    split
    · rw [List.singleton_append, readVarint, UInt8.toNat_ofNat', if_pos (by omega),
        Nat.mod_eq_of_lt (by omega)]
    · have hdiv : n / 128 < 128 ^ (k + 1) := by
        rw [Nat.div_lt_iff_lt_mul (by omega)]
        rwa [pow_succ] at hn
      rw [List.cons_append, readVarint, UInt8.toNat_ofNat', if_neg (by omega), ih hdiv,
        Option.map_some, Option.some.injEq, Prod.mk.injEq]
      exact ⟨by omega, rfl⟩

/-- Numbers of any size. -/
def varint : Format ℕ where
  write n := varintBytes n n
  read := readVarint
  read_write n rest := by
    refine readVarint_varintBytes ?_ rest
    calc n < 128 ^ n := Nat.lt_pow_self (by omega)
      _ ≤ 128 ^ (n + 1) := Nat.pow_le_pow_right (by omega) (by omega)

theorem length_varintBytes_le (j : ℕ) {k n : ℕ} (hn : n < 128 ^ (j + 1)) :
    (varintBytes k n).length ≤ j + 1 := by
  induction j generalizing k n with
  | zero =>
    cases k with
    | zero => exact Nat.le_refl 1
    | succ k =>
      rw [varintBytes, if_pos (by omega)]
      exact Nat.le_refl 1
  | succ j ih =>
    cases k with
    | zero => exact Nat.le_add_left 1 _
    | succ k =>
      rw [varintBytes]
      split
      · exact Nat.le_add_left 1 _
      · have hdiv : n / 128 < 128 ^ (j + 1) := by
          rw [Nat.div_lt_iff_lt_mul (by omega)]
          rwa [pow_succ] at hn
        exact Nat.succ_le_succ (ih hdiv)

/-- A number below `128 ^ (j + 1)` takes at most `j + 1` bytes. -/
theorem length_write_varint_le (j : ℕ) {n : ℕ} (hn : n < 128 ^ (j + 1)) :
    (varint.write n).length ≤ j + 1 :=
  length_varintBytes_le j hn

/-! ### Combinators -/

variable {α : Type u} {β : Type v}

/-- A format of one type carried to another. -/
def convert (A : Format α) (decode : α → Option β) (encode : β → α)
    (h : ∀ b, decode (encode b) = some b) : Format β where
  write b := A.write (encode b)
  read bs := (A.read bs).bind fun r => (decode r.1).map fun b => (b, r.2)
  read_write b rest := by simp [h]

/-- A value after another. -/
def pair (A : Format α) (B : Format β) : Format (α × β) where
  write p := A.write p.1 ++ B.write p.2
  read bs := (A.read bs).bind fun r => (B.read r.2).map fun r' => ((r.1, r'.1), r'.2)
  read_write p rest := by simp [List.append_assoc]

/-- Read a number of values one after another. -/
def readMany (A : Format α) : ℕ → List UInt8 → Option (List α × List UInt8)
  | 0, bs => some ([], bs)
  | n + 1, bs =>
    (A.read bs).bind fun r => (A.readMany n r.2).map fun r' => (r.1 :: r'.1, r'.2)

theorem readMany_flatMap (A : Format α) (as : List α) (rest : List UInt8) :
    A.readMany as.length (as.flatMap A.write ++ rest) = some (as, rest) := by
  induction as with
  | nil => rfl
  | cons a as ih =>
    rw [List.flatMap_cons, List.append_assoc, List.length_cons, readMany, read_write,
      Option.bind_some, ih]
    rfl

/-- A sequence after its length. -/
def many (A : Format α) : Format (List α) where
  write as := varint.write as.length ++ as.flatMap A.write
  read bs := (varint.read bs).bind fun r => A.readMany r.1 r.2
  read_write as rest := by
    rw [List.append_assoc, read_write, Option.bind_some, readMany_flatMap]

/-- The number of a variant, then its fields. -/
def tagged {n : ℕ} {T : Fin n → Type u} (A : ∀ i, Format (T i)) : Format (Σ i, T i) where
  write x := varint.write x.1 ++ (A x.1).write x.2
  read bs := (varint.read bs).bind fun r =>
    if h : r.1 < n then ((A ⟨r.1, h⟩).read r.2).map fun r' => (⟨⟨r.1, h⟩, r'.1⟩, r'.2) else none
  read_write x rest := by
    rw [List.append_assoc, read_write, Option.bind_some, dif_pos x.1.isLt, read_write]
    rfl

/-! ### Scalars -/

def byte : Format UInt8 where
  write b := [b]
  read
    | [] => none
    | b :: rest => some (b, rest)
  read_write _ _ := rfl

def uint32 : Format UInt32 :=
  varint.convert (fun n => if n < 2 ^ 32 then some (.ofNat n) else none) UInt32.toNat fun x => by
    rw [if_pos x.toNat_lt, UInt32.ofNat_toNat]

def uint64 : Format UInt64 :=
  varint.convert (fun n => if n < 2 ^ 64 then some (.ofNat n) else none) UInt64.toNat fun x => by
    rw [if_pos x.toNat_lt, UInt64.ofNat_toNat]

/-- Four little-endian bytes. -/
def fixed32 : Format UInt32 where
  write x := Framing.le32 x.toNat
  read
    | b₀ :: b₁ :: b₂ :: b₃ :: rest => some (.ofNat (Framing.ofLe32 b₀ b₁ b₂ b₃), rest)
    | _ => none
  read_write x rest := by
    simp only [Framing.le32, List.cons_append, List.nil_append]
    rw [Framing.ofLe32_le32 x.toNat_lt, UInt32.ofNat_toNat]

/-- The length of a text in UTF-8, then its bytes. -/
def string : Format String :=
  byte.many.convert (fun bs => String.fromUTF8? ⟨⟨bs⟩⟩) (fun s => s.toByteArray.data.toList)
    fun s => dif_pos s.isValidUTF8

theorem length_flatMap_byte (bs : List UInt8) : (bs.flatMap byte.write).length = bs.length := by
  induction bs with
  | nil => rfl
  | cons b bs ih =>
    rw [List.flatMap_cons, List.length_append, ih, List.length_cons, Nat.add_comm]
    rfl

/-- A short text takes one byte for its length. -/
theorem length_write_string_le {s : String} (hs : s.utf8ByteSize < 128) :
    (string.write s).length ≤ s.utf8ByteSize + 1 := by
  have hsize : s.toByteArray.data.toList.length = s.utf8ByteSize := rfl
  have hlen : (varint.write s.toByteArray.data.toList.length).length ≤ 0 + 1 :=
    length_write_varint_le 0 (by omega)
  show (varint.write s.toByteArray.data.toList.length ++
    s.toByteArray.data.toList.flatMap byte.write).length ≤ _
  rw [List.length_append, length_flatMap_byte]
  omega

end Format

end OxEmbed

import Yeeroot.Pow.Seal
import Yeeroot.Lib.BigEndian

/-!
# The hex codec of the RPC

`rpc/serde-hex` writes RPC values as hex strings through the trait `SerdeHex`: `into_bytes`
turns a value into bytes and `from_bytes` reads it back.  The fixed-width integers `u16`,
`u32` and `u64` write their big-endian bytes, and read a string of at most their width by
copying it, right-aligned, into a zeroed buffer, one byte per turn of a loop with the two
indices `j = W - i - 1` and `len - i - 1`; a longer string is `InvalidInput`.  `Vec<u8>` is
the bytes themselves, `BigUint` its shortest big-endian bytes, and `ExtraData` its 40 bytes.
`switch/relay-monitor` carries a copy of the trait and of five of its implementations, with
the same bodies.

The main results:

* `uintFromBytes_eq`: the loop never goes out of bounds, and a string of at most `W` bytes is
  read as its big-endian value, left-padded with zeros;
* `u64_round_trip`, `u32_round_trip`, `u16_round_trip`, `vec_round_trip`,
  `bigUint_round_trip`, `extraData_round_trip`: reading back what was written gives the value;
* `extra_data_from_bytes_panics`: `ExtraData::from_bytes` copies its input with
  `copy_from_slice` and no length check, so every other length panics where the integer
  readers return an error.

`BigUint` is a natural number, with `to_bytes_be` and `from_bytes_be` of `num-bigint` as
`BigEndian.minimal` and `BigEndian.value`.  `into_bytes` always returns `Ok` and is modelled
as a plain function.
-/

namespace Yeeroot
namespace SerdeHex

open Rust Yeeroot.Pow Scale

/-- The `io::ErrorKind` the fixed-width readers fail with. -/
inductive IoError where
  | invalidInput
deriving DecidableEq, Repr

/-! ## Fixed-width integers -/

/-- One turn of the copying loop of `from_bytes`: `bytes[j] = src[len - i - 1]` with
`j = W - i - 1`, each index checked as Rust checks it. -/
def alignStep (width : ℕ) (src bytes : List UInt8) (i : ℕ) : Except Panic (List UInt8) :=
  let len := src.length
  let j := width - i - 1
  if j < bytes.length then
    if hs : len - i - 1 < len then .ok (bytes.set j (src.get ⟨len - i - 1, hs⟩))
    else .error (Panic.indexOutOfBounds len (len - i - 1))
  else .error (Panic.indexOutOfBounds bytes.length j)

/-- `from_bytes` of an integer of `width` bytes whose `from_be_bytes` is `fromBeBytes`. -/
def uintFromBytes {T : Type} (width : ℕ) (fromBeBytes : List UInt8 → T) (src : List UInt8) :
    Except Panic (Except IoError T) :=
  if src.length > width then .ok (.error .invalidInput)
  else ((List.range src.length).foldlM (alignStep width src) (List.replicate width 0)).map
    fun bytes => .ok (fromBeBytes bytes)

/-- `u64::from_be_bytes`. -/
def u64FromBeBytes (bytes : List UInt8) : UInt64 := UInt64.ofNat (BigEndian.value bytes)

/-- `u32::from_be_bytes`. -/
def u32FromBeBytes (bytes : List UInt8) : UInt32 := UInt32.ofNat (BigEndian.value bytes)

/-- `u16::from_be_bytes`. -/
def u16FromBeBytes (bytes : List UInt8) : UInt16 := UInt16.ofNat (BigEndian.value bytes)

/-- `<u64 as SerdeHex>::from_bytes`. -/
def u64FromBytes (src : List UInt8) : Except Panic (Except IoError UInt64) :=
  uintFromBytes 8 u64FromBeBytes src

/-- `<u32 as SerdeHex>::from_bytes`. -/
def u32FromBytes (src : List UInt8) : Except Panic (Except IoError UInt32) :=
  uintFromBytes 4 u32FromBeBytes src

/-- `<u16 as SerdeHex>::from_bytes`. -/
def u16FromBytes (src : List UInt8) : Except Panic (Except IoError UInt16) :=
  uintFromBytes 2 u16FromBeBytes src

/-- `<u64 as SerdeHex>::into_bytes`: `to_be_bytes`. -/
def u64IntoBytes (v : UInt64) : List UInt8 := BigEndian.ofNat 8 v.toNat

/-- `<u32 as SerdeHex>::into_bytes`. -/
def u32IntoBytes (v : UInt32) : List UInt8 := BigEndian.ofNat 4 v.toNat

/-- `<u16 as SerdeHex>::into_bytes`. -/
def u16IntoBytes (v : UInt16) : List UInt8 := BigEndian.ofNat 2 v.toNat

/-! ## Byte strings, big integers and the extra data -/

/-- `<Vec<u8> as SerdeHex>::from_bytes`. -/
def vecFromBytes (src : List UInt8) : Except Panic (Except IoError (List UInt8)) := .ok (.ok src)

/-- `<Vec<u8> as SerdeHex>::into_bytes`. -/
def vecIntoBytes (v : List UInt8) : List UInt8 := v

/-- `<BigUint as SerdeHex>::from_bytes`: `BigUint::from_bytes_be`. -/
def bigUintFromBytes (src : List UInt8) : Except Panic (Except IoError ℕ) :=
  .ok (.ok (BigEndian.value src))

/-- `<BigUint as SerdeHex>::into_bytes`: `to_bytes_be`. -/
def bigUintIntoBytes (v : ℕ) : List UInt8 := BigEndian.minimal v

/-- `<ExtraData as SerdeHex>::from_bytes`: `[0u8; 40].copy_from_slice(src)`, which asserts that
the lengths agree. -/
def extraDataFromBytes (src : List UInt8) : Except Panic (Except IoError ExtraData) :=
  if h : src.length = 40 then .ok (.ok ⟨src, h⟩)
  else .error (Panic.copyFromSlice 40 src.length)

/-- `<ExtraData as SerdeHex>::into_bytes`: `to_vec`. -/
def extraDataIntoBytes (v : ExtraData) : List UInt8 := v.bytes

/-! ## The copy in `relay-monitor` -/

namespace RelayMonitor

/-- `relay-monitor`'s `<u64 as SerdeHex>::from_bytes`. -/
def u64FromBytes (src : List UInt8) : Except Panic (Except IoError UInt64) :=
  uintFromBytes 8 u64FromBeBytes src

/-- `relay-monitor`'s `<u32 as SerdeHex>::from_bytes`. -/
def u32FromBytes (src : List UInt8) : Except Panic (Except IoError UInt32) :=
  uintFromBytes 4 u32FromBeBytes src

/-- `relay-monitor`'s `<u16 as SerdeHex>::from_bytes`. -/
def u16FromBytes (src : List UInt8) : Except Panic (Except IoError UInt16) :=
  uintFromBytes 2 u16FromBeBytes src

/-- `relay-monitor`'s `<Vec<u8> as SerdeHex>::from_bytes`. -/
def vecFromBytes (src : List UInt8) : Except Panic (Except IoError (List UInt8)) := .ok (.ok src)

/-- `relay-monitor`'s `<BigUint as SerdeHex>::from_bytes`. -/
def bigUintFromBytes (src : List UInt8) : Except Panic (Except IoError ℕ) :=
  .ok (.ok (BigEndian.value src))

end RelayMonitor

/-! ## The copying loop -/

section Loop

variable (width : ℕ) (src : List UInt8)

omit width in
/-- Writing the last zero of a zero buffer. -/
lemma set_replicate_zero_append (n : ℕ) (x : UInt8) (t : List UInt8) :
    (List.replicate (n + 1) 0 ++ t).set n x = List.replicate n 0 ++ x :: t := by
  induction n with
  | zero => rfl
  | succ n ih =>
    rw [List.replicate_succ, List.cons_append, List.set_cons_succ, ih, List.replicate_succ,
      List.cons_append]

/-- A turn of the loop moves the next byte of `src`, from the end, in front of those already
copied. -/
lemma alignStep_eq {k : ℕ} (hk : k < src.length) (hlen : src.length ≤ width) :
    alignStep width src (List.replicate (width - k) 0 ++ src.drop (src.length - k)) k =
      .ok (List.replicate (width - (k + 1)) 0 ++ src.drop (src.length - (k + 1))) := by
  have hbytes : width - k - 1 <
      (List.replicate (width - k) (0 : UInt8) ++ src.drop (src.length - k)).length := by
    simp only [List.length_append, List.length_replicate, List.length_drop]
    omega
  have hsrc : src.length - k - 1 < src.length := by omega
  have hnext : src.drop (src.length - (k + 1)) =
      src.get ⟨src.length - k - 1, hsrc⟩ :: src.drop (src.length - k) := by
    rw [show src.length - (k + 1) = src.length - k - 1 by omega, List.drop_eq_getElem_cons hsrc,
      show src.length - k - 1 + 1 = src.length - k by omega]
    rfl
  rw [alignStep, if_pos hbytes, dif_pos hsrc, hnext, show width - k = width - (k + 1) + 1 by omega,
    show width - (k + 1) + 1 - 1 = width - (k + 1) by omega, set_replicate_zero_append]

/-- After `k` turns, the last `k` bytes of `src` are the last `k` of the buffer. -/
lemma alignLoop_eq {k : ℕ} (hk : k ≤ src.length) (hlen : src.length ≤ width) :
    (List.range k).foldlM (alignStep width src) (List.replicate width 0) =
      .ok (List.replicate (width - k) 0 ++ src.drop (src.length - k)) := by
  induction k with
  | zero =>
    rw [Nat.sub_zero, Nat.sub_zero, List.drop_length, List.append_nil]
    rfl
  | succ k ih =>
    rw [List.range_succ, List.foldlM_append, ih (by omega)]
    show List.foldlM (alignStep width src)
      (List.replicate (width - k) 0 ++ src.drop (src.length - k)) [k] = _
    rw [List.foldlM_cons, alignStep_eq width src (by omega) hlen]
    rfl

/-- **The fixed-width reader.**  It never panics, and reads a string of at most `width` bytes
as the string left-padded with zeros. -/
theorem uintFromBytes_eq {T : Type} (fromBeBytes : List UInt8 → T) :
    uintFromBytes width fromBeBytes src =
      .ok (if src.length ≤ width then .ok (fromBeBytes (List.replicate (width - src.length) 0 ++ src))
        else .error .invalidInput) := by
  by_cases hlen : src.length ≤ width
  · rw [uintFromBytes, if_neg (by omega), alignLoop_eq width src le_rfl hlen, if_pos hlen,
      Nat.sub_self, List.drop_zero]
    rfl
  · rw [uintFromBytes, if_pos (by omega), if_neg hlen]

/-- A reader whose `from_be_bytes` takes the big-endian value reads a string of at most `width`
bytes as its value. -/
lemma uintFromBytes_value {T : Type} (fromValue : ℕ → T) :
    uintFromBytes width (fun bytes => fromValue (BigEndian.value bytes)) src =
      .ok (if src.length ≤ width then .ok (fromValue (BigEndian.value src))
        else .error .invalidInput) := by
  rw [uintFromBytes_eq, BigEndian.value_replicate_zero_append]

omit src in
/-- The reader reads the `width` bytes of `n` back as `n` modulo `256 ^ width`. -/
lemma uintFromBytes_ofNat {T : Type} (fromValue : ℕ → T) (n : ℕ) :
    uintFromBytes width (fun bytes => fromValue (BigEndian.value bytes)) (BigEndian.ofNat width n) =
      .ok (.ok (fromValue (n % 256 ^ width))) := by
  rw [uintFromBytes_value, if_pos (BigEndian.length_ofNat width n).le, BigEndian.value_ofNat]

end Loop

/-! ## Reading what was written -/

/-- `u64::from_bytes` reads at most eight bytes as their big-endian value. -/
lemma u64FromBytes_eq (src : List UInt8) :
    u64FromBytes src =
      .ok (if src.length ≤ 8 then .ok (UInt64.ofNat (BigEndian.value src)) else .error .invalidInput) :=
  uintFromBytes_value 8 src UInt64.ofNat

/-- `u32::from_bytes` reads at most four bytes as their big-endian value. -/
lemma u32FromBytes_eq (src : List UInt8) :
    u32FromBytes src =
      .ok (if src.length ≤ 4 then .ok (UInt32.ofNat (BigEndian.value src)) else .error .invalidInput) :=
  uintFromBytes_value 4 src UInt32.ofNat

/-- `u16::from_bytes` reads at most two bytes as their big-endian value. -/
lemma u16FromBytes_eq (src : List UInt8) :
    u16FromBytes src =
      .ok (if src.length ≤ 2 then .ok (UInt16.ofNat (BigEndian.value src)) else .error .invalidInput) :=
  uintFromBytes_value 2 src UInt16.ofNat

/-- The value a reader of `width` bytes accepts fits the width, so `from_be_bytes` does not
wrap it. -/
lemma value_lt_of_length_le {src : List UInt8} {width : ℕ} (hlen : src.length ≤ width) :
    BigEndian.value src < 2 ^ (8 * width) := by
  calc BigEndian.value src < 256 ^ src.length := BigEndian.value_lt src
    _ ≤ 256 ^ width := Nat.pow_le_pow_right (by norm_num) hlen
    _ = 2 ^ (8 * width) := by rw [pow_mul]; norm_num

lemma u64_round_trip (v : UInt64) : u64FromBytes (u64IntoBytes v) = .ok (.ok v) := by
  have hv : v.toNat % 256 ^ 8 = v.toNat := Nat.mod_eq_of_lt (by simpa using v.toNat_lt)
  rw [u64FromBytes, u64IntoBytes]
  exact (uintFromBytes_ofNat 8 UInt64.ofNat v.toNat).trans (by rw [hv, UInt64.ofNat_toNat])

lemma u32_round_trip (v : UInt32) : u32FromBytes (u32IntoBytes v) = .ok (.ok v) := by
  have hv : v.toNat % 256 ^ 4 = v.toNat := Nat.mod_eq_of_lt (by simpa using v.toNat_lt)
  rw [u32FromBytes, u32IntoBytes]
  exact (uintFromBytes_ofNat 4 UInt32.ofNat v.toNat).trans (by rw [hv, UInt32.ofNat_toNat])

lemma u16_round_trip (v : UInt16) : u16FromBytes (u16IntoBytes v) = .ok (.ok v) := by
  have hv : v.toNat % 256 ^ 2 = v.toNat := Nat.mod_eq_of_lt (by simpa using v.toNat_lt)
  rw [u16FromBytes, u16IntoBytes]
  exact (uintFromBytes_ofNat 2 UInt16.ofNat v.toNat).trans (by rw [hv, UInt16.ofNat_toNat])

lemma vec_round_trip (v : List UInt8) : vecFromBytes (vecIntoBytes v) = .ok (.ok v) := rfl

lemma bigUint_round_trip (v : ℕ) : bigUintFromBytes (bigUintIntoBytes v) = .ok (.ok v) := by
  rw [bigUintFromBytes, bigUintIntoBytes, BigEndian.value_minimal]

lemma extraData_round_trip (v : ExtraData) : extraDataFromBytes (extraDataIntoBytes v) = .ok (.ok v) := by
  rw [extraDataFromBytes, extraDataIntoBytes, dif_pos v.length_eq]

/-! ## The extra data of another length -/

/-- `ExtraData::from_bytes` panics on every string that is not 40 bytes long. -/
lemma extraDataFromBytes_of_length_ne {src : List UInt8} (hlen : src.length ≠ 40) :
    extraDataFromBytes src = .error (Panic.copyFromSlice 40 src.length) := by
  rw [extraDataFromBytes, dif_neg hlen]

theorem extra_data_from_bytes_panics :
    extraDataFromBytes [] = .error (Panic.copyFromSlice 40 0) ∧
      u64FromBytes (List.replicate 9 0) = .ok (.error .invalidInput) := by
  refine ⟨extraDataFromBytes_of_length_ne (by decide), ?_⟩
  rw [u64FromBytes_eq, if_neg (by decide)]

end SerdeHex
end Yeeroot

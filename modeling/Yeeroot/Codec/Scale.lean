import Mathlib

/-!
# SCALE byte codecs

A small library for the byte formats of the SCALE codec (`parity-codec`), written for the
hand-rolled parsers of this development but naming nothing of it.

A `Codec` pairs an encoder with a decoder that reads a value off the front of a byte string
and returns what it did not consume, the shape of `Decode::decode(&mut input)` on a slice.
`LawfulCodec` is the one law the models rely on: decoding an encoding returns the value and
leaves whatever followed untouched.  Nothing here assumes the converse (that every accepted
string is an encoding), since the decoders of fixed arrays and of `Compact` need not
reject non-canonical input.

The formats:

* `encodeLE`/`decodeLE`: fixed-width little-endian naturals, the format of `u8`..`u128`
  and `U256`, with `UInt8`, `UInt16`, `UInt32` and `UInt64` instances;
* `FixedBytes n`: byte arrays `[u8; n]`, which carry their length as a field;
* `Option α`, pairs (Rust tuples), and `Unit`; derived struct codecs (`Codec.ofFields`);
* `Fin (2 ^ (8 * w))`: unsigned integers of `w` bytes, among them `U256`; and `H256`;
* `encodeCompact`/`decodeCompact`: the variable-length `Compact` integers, whose decoder is
  parametrised by the width in bytes of the integer type;
* `encodeVec`/`decodeVec`: vectors, a `Compact<u32>` count followed by the elements.

Each format gets its round trip (`decodeLE_encodeLE`, `decodeCompact_encodeCompact`,
`decodeVec_encodeVec`) and the length facts the byte-level parsers need.  Where the law holds
only for part of a type (vectors the `u32` count can hold), it is stated for one value as
`RoundTrips a`, and the pair lemmas compose it; the decoders' bounds (`decodeLE_lt`,
`decodeVec_length_lt`) say that what they return is again such a value.
-/

namespace Scale

/-- A byte string. -/
abbrev Bytes := List UInt8

/-- An encoder and a decoder that returns the unconsumed tail. -/
class Codec (α : Type) where
  encode : α → Bytes
  decode : Bytes → Option (α × Bytes)

export Codec (encode decode)

/-- Decoding an encoding returns the value and leaves the bytes that follow. -/
class LawfulCodec (α : Type) [Codec α] : Prop where
  decode_encode_append : ∀ (a : α) (rest : Bytes), decode (encode a ++ rest) = some (a, rest)

attribute [simp] LawfulCodec.decode_encode_append

/-- The law for one value: its encoding decodes back to it, whatever follows.  A codec whose
law holds only on part of its type (vectors the count can hold) is reasoned about through
this predicate. -/
def RoundTrips {α : Type} [Codec α] (a : α) : Prop :=
  ∀ rest : Bytes, decode (encode a ++ rest) = some (a, rest)

section Lawful

variable {α : Type} [Codec α] [LawfulCodec α]

@[simp] lemma decode_encode (a : α) : decode (encode a) = some (a, []) := by
  simpa using LawfulCodec.decode_encode_append a []

lemma roundTrips (a : α) : RoundTrips a := LawfulCodec.decode_encode_append a

end Lawful

/-! ## Fixed-width little-endian integers -/

/-- The `w` little-endian bytes of `n`, truncated to the width. -/
def encodeLE : ℕ → ℕ → Bytes
  | 0, _ => []
  | w + 1, n => UInt8.ofNat (n % 256) :: encodeLE w (n / 256)

/-- Read a `w`-byte little-endian natural. -/
def decodeLE : ℕ → Bytes → Option (ℕ × Bytes)
  | 0, bs => some (0, bs)
  | _ + 1, [] => none
  | w + 1, b :: bs => (decodeLE w bs).map fun (v, rest) => (b.toNat + 256 * v, rest)

@[simp] lemma encodeLE_length (w n : ℕ) : (encodeLE w n).length = w := by
  induction w generalizing n with
  | zero => rfl
  | succ w ih => simp [encodeLE, ih]

/-- **Little-endian round trip**, for every value the width holds. -/
lemma decodeLE_encodeLE (w n : ℕ) (hn : n < 2 ^ (8 * w)) (rest : Bytes) :
    decodeLE w (encodeLE w n ++ rest) = some (n, rest) := by
  induction w generalizing n with
  | zero =>
    have : n = 0 := by simpa using hn
    subst this
    rfl
  | succ w ih =>
    have hdiv : n / 256 < 2 ^ (8 * w) := by
      rw [Nat.div_lt_iff_lt_mul (by norm_num)]
      calc n < 2 ^ (8 * (w + 1)) := hn
        _ = 2 ^ (8 * w) * 256 := by rw [Nat.mul_succ, pow_add]; norm_num
    simp only [encodeLE, List.cons_append, decodeLE, ih _ hdiv, Option.map_some]
    have hbyte : (UInt8.ofNat (n % 256)).toNat = n % 256 := by
      simp [Nat.mod_mod_of_dvd]
    rw [hbyte, Nat.mod_add_div]

/-- A little-endian read consumes exactly `w` bytes. -/
lemma decodeLE_eq_some {w : ℕ} {bs rest : Bytes} {v : ℕ}
    (h : decodeLE w bs = some (v, rest)) : bs.length = w + rest.length := by
  induction w generalizing bs v with
  | zero =>
    simp only [decodeLE, Option.some.injEq, Prod.mk.injEq] at h
    rw [h.2]
    simp
  | succ w ih =>
    match bs, h with
    | b :: bs, h =>
      simp only [decodeLE, Option.map_eq_some_iff, Prod.exists, Prod.mk.injEq] at h
      obtain ⟨v', rest', hd, -, rfl⟩ := h
      simp [ih hd]
      omega

/-- A little-endian read returns a value the width holds. -/
lemma decodeLE_lt {w : ℕ} {bs rest : Bytes} {v : ℕ} (h : decodeLE w bs = some (v, rest)) :
    v < 2 ^ (8 * w) := by
  induction w generalizing bs v rest with
  | zero =>
    simp only [decodeLE, Option.some.injEq, Prod.mk.injEq] at h
    simp [← h.1]
  | succ w ih =>
    match bs, h with
    | b :: bs, h =>
      simp only [decodeLE, Option.map_eq_some_iff, Prod.exists, Prod.mk.injEq] at h
      obtain ⟨v', rest', hd, rfl, -⟩ := h
      have hv' := ih hd
      have hb := b.toNat_lt
      rw [show 8 * (w + 1) = 8 * w + 8 by ring, pow_add]
      norm_num
      omega

/-! ## Machine integers -/

instance : Codec UInt8 where
  encode b := [b]
  decode
    | b :: bs => some (b, bs)
    | [] => none

instance : LawfulCodec UInt8 := ⟨fun _ _ => rfl⟩

@[simp] lemma decode_uint8_cons (b : UInt8) (bs : Bytes) :
    (decode (b :: bs) : Option (UInt8 × Bytes)) = some (b, bs) := rfl

instance : Codec UInt16 where
  encode n := encodeLE 2 n.toNat
  decode bs := (decodeLE 2 bs).map fun (v, rest) => (UInt16.ofNat v, rest)

instance : LawfulCodec UInt16 :=
  ⟨fun a rest => by simp [encode, decode, decodeLE_encodeLE 2 a.toNat a.toNat_lt rest]⟩

instance : Codec UInt32 where
  encode n := encodeLE 4 n.toNat
  decode bs := (decodeLE 4 bs).map fun (v, rest) => (UInt32.ofNat v, rest)

instance : LawfulCodec UInt32 :=
  ⟨fun a rest => by simp [encode, decode, decodeLE_encodeLE 4 a.toNat a.toNat_lt rest]⟩

instance : Codec UInt64 where
  encode n := encodeLE 8 n.toNat
  decode bs := (decodeLE 8 bs).map fun (v, rest) => (UInt64.ofNat v, rest)

instance : LawfulCodec UInt64 :=
  ⟨fun a rest => by simp [encode, decode, decodeLE_encodeLE 8 a.toNat a.toNat_lt rest]⟩

@[simp] lemma encode_uint16_length (n : UInt16) : (encode n).length = 2 := encodeLE_length 2 _

@[simp] lemma encode_uint32_length (n : UInt32) : (encode n).length = 4 := encodeLE_length 4 _

@[simp] lemma encode_uint64_length (n : UInt64) : (encode n).length = 8 := encodeLE_length 8 _

/-- A `u32` cannot be read from fewer than four bytes. -/
lemma decode_uint32_of_length_lt {bs : Bytes} (h : bs.length < 4) :
    (decode bs : Option (UInt32 × Bytes)) = none := by
  show (decodeLE 4 bs).map _ = none
  cases hd : decodeLE 4 bs with
  | none => rfl
  | some p => have := decodeLE_eq_some hd; omega

/-! ## Byte arrays -/

/-- A byte array `[u8; n]`: its length is part of the value. -/
structure FixedBytes (n : ℕ) where
  bytes : Bytes
  length_eq : bytes.length = n
deriving DecidableEq

instance (n : ℕ) : Codec (FixedBytes n) where
  encode a := a.bytes
  decode bs :=
    if h : n ≤ bs.length then some (⟨bs.take n, by simp [h]⟩, bs.drop n) else none

instance (n : ℕ) : Inhabited (FixedBytes n) := ⟨⟨List.replicate n 0, List.length_replicate⟩⟩

@[simp] lemma encode_fixedBytes_length {n : ℕ} (a : FixedBytes n) : (encode a).length = n :=
  a.length_eq

instance (n : ℕ) : LawfulCodec (FixedBytes n) where
  decode_encode_append a rest := by
    obtain ⟨bytes, hlen⟩ := a
    subst hlen
    simp [encode, decode]

/-! ## Options, pairs and the unit -/

instance : Codec Unit where
  encode _ := []
  decode bs := some ((), bs)

instance : LawfulCodec Unit := ⟨fun _ _ => rfl⟩

instance {α : Type} [Codec α] : Codec (Option α) where
  encode
    | none => [0]
    | some a => 1 :: encode a
  decode
    | 0 :: bs => some (none, bs)
    | 1 :: bs => (decode bs).map fun (a, rest) => (some a, rest)
    | _ => none

instance {α : Type} [Codec α] [LawfulCodec α] : LawfulCodec (Option α) where
  decode_encode_append a rest := by
    cases a <;> simp [encode, decode]

instance {α β : Type} [Codec α] [Codec β] : Codec (α × β) where
  encode p := encode p.1 ++ encode p.2
  decode bs := do
    let (a, bs) ← decode bs
    let (b, bs) ← decode bs
    return ((a, b), bs)

@[simp] lemma encode_pair {α β : Type} [Codec α] [Codec β] (p : α × β) :
    encode p = encode p.1 ++ encode p.2 := rfl

/-- A pair decodes its components in order. -/
lemma decode_pair {α β : Type} [Codec α] [Codec β] (bs : Bytes) :
    (decode bs : Option ((α × β) × Bytes)) =
      (decode bs).bind fun (a, bs) => (decode bs).bind fun (b, bs) => some ((a, b), bs) := rfl

/-- A pair decodes only when its first component does and its second follows. -/
lemma decode_pair_eq_some {α β : Type} [Codec α] [Codec β] {bs rest : Bytes} {a : α} {b : β}
    (h : (decode bs : Option ((α × β) × Bytes)) = some ((a, b), rest)) :
    ∃ mid, decode bs = some (a, mid) ∧ decode mid = some (b, rest) := by
  rw [decode_pair] at h
  simp only [Option.bind_eq_some_iff, Option.some.injEq, Prod.exists, Prod.mk.injEq] at h
  obtain ⟨a', mid, ha, b', rest', hb, ⟨rfl, rfl⟩, rfl⟩ := h
  exact ⟨mid, ha, hb⟩

/-- Once the first component has been read back, a pair decodes as its second component.
This is how a tuple's decoding is followed field by field, also where it fails. -/
lemma decode_pair_of_roundTrips {α β : Type} [Codec α] [Codec β] {a : α} (ha : RoundTrips a)
    (rest : Bytes) :
    (decode (encode a ++ rest) : Option ((α × β) × Bytes)) =
      (decode rest).map fun (b, bs) => ((a, b), bs) := by
  rw [decode_pair, ha, Option.bind_some]
  show (decode rest).bind _ = _
  cases (decode rest : Option (β × Bytes)) <;> rfl

lemma roundTrips_pair {α β : Type} [Codec α] [Codec β] {a : α} {b : β}
    (ha : RoundTrips a) (hb : RoundTrips b) : RoundTrips (a, b) := by
  intro rest
  rw [encode_pair, List.append_assoc, decode_pair_of_roundTrips ha, hb, Option.map_some]

instance {α β : Type} [Codec α] [LawfulCodec α] [Codec β] [LawfulCodec β] :
    LawfulCodec (α × β) where
  decode_encode_append p _ := roundTrips_pair (roundTrips p.1) (roundTrips p.2) _

/-! ## Structs and enums

A `#[derive(Encode, Decode)]` struct encodes as the tuple of its fields, in declaration order;
an enum as its variant index byte followed by the variant's fields. -/

/-- The derived codec of a struct whose fields, read in order, form the tuple type `α`. -/
@[reducible] def Codec.ofFields {α β : Type} [Codec α] (fields : β → α) (mk : α → β) : Codec β where
  encode b := encode (fields b)
  decode bs := (decode bs).map fun (a, rest) => (mk a, rest)

/-- A struct round trips as soon as the tuple of its fields does. -/
lemma roundTrips_ofFields {α β : Type} [Codec α] {fields : β → α} {mk : α → β} {b : β}
    (hmk : mk (fields b) = b) (h : RoundTrips (fields b)) :
    @RoundTrips β (Codec.ofFields fields mk) b := by
  intro rest
  show (decode (encode (fields b) ++ rest)).map _ = _
  rw [h, Option.map_some]
  show some (mk (fields b), rest) = some (b, rest)
  rw [hmk]

/-- The derived codec of a struct is lawful when its fields' codecs are. -/
lemma LawfulCodec.ofFields {α β : Type} [Codec α] [LawfulCodec α] {fields : β → α}
    {mk : α → β} (hmk : ∀ b, mk (fields b) = b) : @LawfulCodec β (Codec.ofFields fields mk) :=
  @LawfulCodec.mk β (Codec.ofFields fields mk) fun b => roundTrips_ofFields (hmk b) (roundTrips _)

/-! ## Unsigned integers of any width

`U256` and the other fixed-width integers of `primitives` encode as their little-endian
bytes. -/

instance (w : ℕ) : Codec (Fin (2 ^ (8 * w))) where
  encode a := encodeLE w a.val
  decode bs := (decodeLE w bs).bind fun (v, rest) =>
    if h : v < 2 ^ (8 * w) then some (⟨v, h⟩, rest) else none

instance (w : ℕ) : LawfulCodec (Fin (2 ^ (8 * w))) where
  decode_encode_append a rest := by
    simp [encode, decode, decodeLE_encodeLE w a.val a.isLt]

/-- `H256` of `primitive-types`: a 32-byte hash. -/
abbrev H256 := FixedBytes 32

/-- `U256` of `primitive-types`: four `u64` words, which encode as 32 little-endian bytes. -/
abbrev U256 := Fin (2 ^ (8 * 32))

/-- `u128`, with its sixteen-byte encoding. -/
abbrev U128 := Fin (2 ^ (8 * 16))

/-! ## Compact integers -/

/-- The number of bytes of the shortest little-endian form of `n`. -/
def byteLength (n : ℕ) : ℕ := Nat.log2 n / 8 + 1

lemma lt_two_pow_byteLength (n : ℕ) : n < 2 ^ (8 * byteLength n) := by
  rcases Nat.eq_zero_or_pos n with rfl | hn
  · simp [byteLength]
  · have := (Nat.log2_lt hn.ne').mp (show Nat.log2 n < 8 * byteLength n by
      simp only [byteLength]; omega)
    exact this

lemma byteLength_le {n w : ℕ} (hn : n < 2 ^ (8 * w)) (hw : 1 ≤ w) : byteLength n ≤ w := by
  rcases Nat.eq_zero_or_pos n with rfl | hpos
  · simp [byteLength, hw]
  · have := (Nat.log2_lt hpos.ne').mpr hn
    simp only [byteLength]
    omega

lemma four_le_byteLength {n : ℕ} (hn : 2 ^ 30 ≤ n) : 4 ≤ byteLength n := by
  have : 30 ≤ Nat.log2 n := by
    by_contra h
    have := (Nat.log2_lt (by positivity : n ≠ 0)).mp (by omega : Nat.log2 n < 30)
    omega
  simp only [byteLength]
  omega

/-- `Compact` encoding: one, two or four bytes with the mode in the low two bits, or a
length byte followed by the shortest little-endian form. -/
def encodeCompact (n : ℕ) : Bytes :=
  if n < 2 ^ 6 then [UInt8.ofNat (4 * n)]
  else if n < 2 ^ 14 then encodeLE 2 (4 * n + 1)
  else if n < 2 ^ 30 then encodeLE 4 (4 * n + 2)
  else UInt8.ofNat (4 * (byteLength n - 4) + 3) :: encodeLE (byteLength n) n

/-- `Compact` decoding for an integer type of `width` bytes: the mode is the low two bits of
the first byte; the long mode names its byte count, which must fit the width. -/
def decodeCompact (width : ℕ) : Bytes → Option (ℕ × Bytes)
  | [] => none
  | b :: bs =>
    match b.toNat % 4 with
    | 0 => some (b.toNat / 4, bs)
    | 1 => (decodeLE 2 (b :: bs)).map fun (v, rest) => (v / 4, rest)
    | 2 => (decodeLE 4 (b :: bs)).map fun (v, rest) => (v / 4, rest)
    | _ =>
      let bytes := b.toNat / 4 + 4
      if bytes ≤ width then decodeLE bytes bs else none

lemma encodeCompact_ne_nil (n : ℕ) : encodeCompact n ≠ [] := by
  unfold encodeCompact
  split_ifs <;> simp [encodeLE]

lemma encodeCompact_length_pos (n : ℕ) : 1 ≤ (encodeCompact n).length := by
  have := encodeCompact_ne_nil n
  cases h : encodeCompact n with
  | nil => exact absurd h this
  | cons => simp

/-- A value below `2 ^ 6` takes one byte. -/
lemma encodeCompact_of_lt (n : ℕ) (hn : n < 2 ^ 6) : encodeCompact n = [UInt8.ofNat (4 * n)] := by
  rw [encodeCompact, if_pos hn]

/-- **`Compact` round trip**, for every value the integer type holds (of four to sixteen
bytes, as `u32`, `u64` and `u128` are). -/
lemma decodeCompact_encodeCompact (width n : ℕ) (hw : 4 ≤ width) (hw16 : width ≤ 16)
    (hn : n < 2 ^ (8 * width)) (rest : Bytes) :
    decodeCompact width (encodeCompact n ++ rest) = some (n, rest) := by
  unfold encodeCompact
  split_ifs with h6 h14 h30
  · -- single-byte mode
    have hbyte : (UInt8.ofNat (4 * n)).toNat = 4 * n := by
      simp [UInt8.toNat_ofNat]
      omega
    simp only [List.cons_append, decodeCompact, hbyte]
    rw [show 4 * n % 4 = 0 by omega]
    simp
  · -- two-byte mode: the first byte carries the mode
    obtain ⟨b, bs, hcons⟩ : ∃ b bs, encodeLE 2 (4 * n + 1) ++ rest = b :: bs := by
      simp [encodeLE]
    have hb : b.toNat % 4 = 1 := by
      simp only [encodeLE, List.cons_append, List.cons.injEq] at hcons
      rw [← hcons.1]
      simp
    have hdec := decodeLE_encodeLE 2 (4 * n + 1) (by norm_num; omega) rest
    rw [hcons] at hdec ⊢
    simp only [decodeCompact, hb, hdec, Option.map_some]
    congr 2
    omega
  · -- four-byte mode
    obtain ⟨b, bs, hcons⟩ : ∃ b bs, encodeLE 4 (4 * n + 2) ++ rest = b :: bs := by
      simp [encodeLE]
    have hb : b.toNat % 4 = 2 := by
      simp only [encodeLE, List.cons_append, List.cons.injEq] at hcons
      rw [← hcons.1]
      simp
    have hdec := decodeLE_encodeLE 4 (4 * n + 2) (by norm_num; omega) rest
    rw [hcons] at hdec ⊢
    simp only [decodeCompact, hb, hdec, Option.map_some]
    congr 2
    omega
  · -- long mode: the byte count is the shortest form, between four and the width
    have h4 := four_le_byteLength (by omega : 2 ^ 30 ≤ n)
    have hle := byteLength_le hn (by omega)
    have hbyte : (UInt8.ofNat (4 * (byteLength n - 4) + 3)).toNat = 4 * (byteLength n - 4) + 3 := by
      simp [UInt8.toNat_ofNat]
      omega
    simp only [List.cons_append, decodeCompact, hbyte]
    rw [show (4 * (byteLength n - 4) + 3) % 4 = 3 by omega,
      show (4 * (byteLength n - 4) + 3) / 4 + 4 = byteLength n by omega]
    simp [hle, decodeLE_encodeLE _ n (lt_two_pow_byteLength n) rest]

/-! ## Vectors -/

/-- Decode `count` values in sequence. -/
def decodeMany {α : Type} [Codec α] : ℕ → Bytes → Option (List α × Bytes)
  | 0, bs => some ([], bs)
  | count + 1, bs => do
    let (a, bs) ← decode bs
    let (as, bs) ← decodeMany count bs
    return (a :: as, bs)

/-- `Vec<T>` encoding: a `Compact<u32>` count, then the elements.  `Vec::encode` first asserts
that the count fits a `u32`.  The encoder here is the encoding of the vectors that pass the
assert: a model that can panic checks the length before it encodes, and what is proved of the
encoder is for such vectors (`decodeVec_encodeVec`, `roundTrips_vec`). -/
def encodeVec {α : Type} [Codec α] (as : List α) : Bytes :=
  encodeCompact as.length ++ (as.map encode).flatten

/-- `Vec<T>` decoding: a `Compact<u32>` count, then as many elements. -/
def decodeVec {α : Type} [Codec α] (bs : Bytes) : Option (List α × Bytes) := do
  let (count, bs) ← decodeCompact 4 bs
  decodeMany count bs

lemma decodeMany_encode {α : Type} [Codec α] [LawfulCodec α] (as : List α) (rest : Bytes) :
    decodeMany as.length ((as.map encode).flatten ++ rest) = some (as, rest) := by
  induction as with
  | nil => rfl
  | cons a as ih => simp [decodeMany, List.append_assoc, ih]

/-- `decodeCompact 4`, the decoder of `Compact<u32>`, returns a value that fits in a `u32`. -/
lemma decodeCompact_four_lt {bs rest : Bytes} {n : ℕ} (h : decodeCompact 4 bs = some (n, rest)) :
    n < 2 ^ 32 := by
  match bs, h with
  | b :: bs, h =>
    simp only [decodeCompact] at h
    have hb := b.toNat_lt
    split at h
    · simp only [Option.some.injEq, Prod.mk.injEq] at h
      omega
    · -- two-byte mode
      simp only [Option.map_eq_some_iff, Prod.exists, Prod.mk.injEq] at h
      obtain ⟨v, rest', hd, rfl, -⟩ := h
      have := decodeLE_lt hd
      omega
    · -- four-byte mode
      simp only [Option.map_eq_some_iff, Prod.exists, Prod.mk.injEq] at h
      obtain ⟨v, rest', hd, rfl, -⟩ := h
      have := decodeLE_lt hd
      omega
    · -- long mode: only the four-byte form fits a `u32`
      split_ifs at h with hw
      have hfour : b.toNat / 4 + 4 = 4 := by omega
      rw [hfour] at h
      exact decodeLE_lt h

/-- `decodeMany count` returns `count` values. -/
lemma decodeMany_length {α : Type} [Codec α] {count : ℕ} {bs rest : Bytes} {as : List α}
    (h : decodeMany count bs = some (as, rest)) : as.length = count := by
  induction count generalizing bs as rest with
  | zero =>
    simp only [decodeMany, Option.some.injEq, Prod.mk.injEq] at h
    simp [← h.1]
  | succ count ih =>
    simp only [decodeMany, Option.bind_eq_bind, Option.bind_eq_some_iff, Prod.exists] at h
    obtain ⟨a, bs', -, as', rest', hmany, hpair⟩ := h
    simp only [Option.pure_def, Option.some.injEq, Prod.mk.injEq] at hpair
    rw [← hpair.1, List.length_cons, ih hmany]

/-- A decoded vector is one the `u32` count can hold. -/
lemma decodeVec_length_lt {α : Type} [Codec α] {bs rest : Bytes} {as : List α}
    (h : decodeVec bs = some (as, rest)) : as.length < 2 ^ 32 := by
  simp only [decodeVec, Option.bind_eq_bind, Option.bind_eq_some_iff, Prod.exists] at h
  obtain ⟨count, bs', hcount, hmany⟩ := h
  rw [decodeMany_length hmany]
  exact decodeCompact_four_lt hcount

/-- **Vector round trip**, for every vector the `u32` count holds. -/
lemma decodeVec_encodeVec {α : Type} [Codec α] [LawfulCodec α] (as : List α)
    (has : as.length < 2 ^ 32) (rest : Bytes) :
    decodeVec (encodeVec as ++ rest) = some (as, rest) := by
  simp only [decodeVec, encodeVec, List.append_assoc]
  rw [decodeCompact_encodeCompact 4 _ le_rfl (by norm_num) has]
  simp [decodeMany_encode]

instance {α : Type} [Codec α] : Codec (List α) where
  encode := encodeVec
  decode := decodeVec

/-- A byte vector is its `Compact` length and the bytes. -/
lemma encode_bytes (bs : Bytes) : encode bs = encodeCompact bs.length ++ bs := by
  show encodeVec bs = _
  simp only [encodeVec]
  congr 1
  induction bs with
  | nil => rfl
  | cons b bs ih =>
    rw [List.map_cons, List.flatten_cons, ih]
    rfl

/-- Values that take no bytes are all decoded from nothing. -/
lemma decodeMany_unit (count : ℕ) (bs : Bytes) :
    (decodeMany count bs : Option (List Unit × Bytes)) = some (List.replicate count (), bs) := by
  induction count with
  | zero => rfl
  | succ count ih =>
    have hunit : (decode bs : Option (Unit × Bytes)) = some ((), bs) := rfl
    simp [decodeMany, hunit, ih, List.replicate_succ]

/-- **A `Vec<()>` is its length.**  Decoding one reads the `Compact<u32>` count alone, which is
how hand-written decoders skip a length prefix. -/
lemma decode_unitVec (n : ℕ) (hn : n < 2 ^ 32) (rest : Bytes) :
    (decode (encodeCompact n ++ rest) : Option (List Unit × Bytes)) =
      some (List.replicate n (), rest) := by
  show decodeVec _ = _
  simp only [decodeVec, decodeCompact_encodeCompact 4 n le_rfl (by norm_num) hn rest,
    Option.bind_eq_bind, Option.bind_some, decodeMany_unit]

/-- A vector round trips when its elements do and its length fits the `u32` count; longer
vectors make `Vec::encode` assert. -/
lemma roundTrips_vec {α : Type} [Codec α] [LawfulCodec α] {as : List α}
    (has : as.length < 2 ^ 32) : RoundTrips as :=
  decodeVec_encodeVec as has

end Scale

import Yeeroot.Substrate.Primitives

/-!
# Transactions on the wire

The runtime's transactions are substrate's `UncheckedMortalCompactExtrinsic`, and several
parts of the node read their bytes by hand instead of decoding them.  This file gives the
byte format as substrate documents it, so that those readers can be run on it:

* `Address` of `srml-indices`: an account (`0xff` and its 32 bytes) or an index into the
  account enumeration (one byte below `0xf0`, or `0xfc`/`0xfd` and a `u16`/`u32`), and the
  lookup that resolves it;
* `Era` of `sr-primitives`: `0` for an immortal transaction, two bytes for a mortal one;
* `UncheckedExtrinsic.encode`: a `Compact` length, a version byte whose top bit says whether
  the transaction is signed, for a signed one the sender's address, the signature, the
  `Compact` nonce and the era, and then the call.

The decoders of these types are those of substrate's code; only `Era`'s is used here, by the
hand-written readers of `yee-sr-primitives`.
-/

namespace Substrate

open Scale

/-! ## Addresses -/

/-- `indices::Address`, with the runtime's `u32` account index. -/
inductive Address (AccountId : Type) where
  | id (account : AccountId)
  | index (index : UInt32)
deriving DecidableEq

section Address

variable {AccountId : Type}

/-- The encoding of an address: an index takes one byte below `0xf0`, and a marker byte
with a `u16` or a `u32` above; an account is `0xff` and its bytes. -/
def Address.encode [Codec AccountId] : Address AccountId → Bytes
  | .id account => 0xff :: Codec.encode account
  | .index i =>
    if 0xffff < i then 0xfd :: Codec.encode i
    else if 0xf0 ≤ i then 0xfc :: Codec.encode i.toUInt16
    else [i.toUInt8]

/-- The decoding of an address, which insists on the shortest form of an index. -/
def Address.decode [Codec AccountId] : Bytes → Option (Address AccountId × Bytes)
  | [] => none
  | x :: bs =>
    if x ≤ 0xef then some (.index x.toUInt32, bs)
    else if x = 0xfc then
      (Codec.decode bs : Option (UInt16 × Bytes)).bind fun (v, rest) =>
        if 0xef < v then some (.index v.toUInt32, rest) else none
    else if x = 0xfd then
      (Codec.decode bs : Option (UInt32 × Bytes)).bind fun (v, rest) =>
        if 0xffff < v then some (.index v, rest) else none
    else if x = 0xfe then
      -- a `u32` index never exceeds `0xffffffff`
      (Codec.decode bs : Option (UInt32 × Bytes)).bind fun (v, rest) =>
        if 0xffffffff < v.toNat then some (.index v, rest) else none
    else if x = 0xff then (Codec.decode bs).map fun (account, rest) => (.id account, rest)
    else none

instance [Codec AccountId] : Codec (Address AccountId) := ⟨Address.encode, Address.decode⟩

/-- `StaticLookup::lookup` of `Indices`: an index resolves through the enumeration. -/
def Address.lookup (lookupIndex : UInt32 → Option AccountId) :
    Address AccountId → Except String AccountId
  | .id account => .ok account
  | .index i =>
    match lookupIndex i with
    | some account => .ok account
    | none => .error "invalid account index"

/-- An account address is `0xff` and the account's bytes. -/
@[simp] lemma encode_address_id [Codec AccountId] (account : AccountId) :
    Codec.encode (Address.id account) = 0xff :: Codec.encode account := rfl

/-- An index below `0xf0` is one byte. -/
lemma encode_address_index_of_lt [Codec AccountId] {i : UInt32} (hi : i < 0xf0) :
    Codec.encode (Address.index i : Address AccountId) = [i.toUInt8] := by
  have h1 : ¬ (0xffff < i) := by
    rw [UInt32.lt_iff_toNat_lt] at hi ⊢
    simp at hi ⊢
    omega
  have h2 : ¬ (0xf0 ≤ i) := by
    rw [UInt32.le_iff_toNat_le]
    rw [UInt32.lt_iff_toNat_lt] at hi
    simp at hi ⊢
    omega
  show Address.encode _ = _
  rw [Address.encode, if_neg h1, if_neg h2]

end Address

/-! ## Eras -/

/-- `generic::Era`: immortal, or mortal with a period and a phase. -/
inductive Era where
  | immortal
  | mortal (period : UInt64) (phase : UInt64)
deriving DecidableEq

/-- The trailing zero bits of the low `fuel` bits of `n`. -/
def trailingZerosLoop : ℕ → ℕ → ℕ
  | 0, _ => 0
  | fuel + 1, n => if n % 2 = 0 then trailingZerosLoop fuel (n / 2) + 1 else 0

/-- `u64::trailing_zeros`. -/
def trailingZeros (n : UInt64) : ℕ := trailingZerosLoop 64 n.toNat

/-- The encoding of an era: `0`, or a `u16` holding the period's logarithm in its low four
bits and the quantized phase above. -/
def Era.encode : Era → Bytes
  | .immortal => [0]
  | .mortal period phase =>
    let quantizeFactor := max (period.toNat >>> 12) 1
    -- `trailing_zeros() - 1` is a `u32` subtraction, which wraps for an odd period
    let low := if trailingZeros period = 0 then 15 else min (max (trailingZeros period - 1) 1) 15
    Codec.encode (UInt16.ofNat low ||| UInt16.ofNat ((phase.toNat / quantizeFactor) <<< 4))

/-- The decoding of an era, which accepts a mortal era only when its phase lies in its
period. -/
def Era.decode : Bytes → Option (Era × Bytes)
  | [] => none
  | first :: bs =>
    if first = 0 then some (.immortal, bs)
    else
      match bs with
      | [] => none
      | second :: rest =>
        let encoded := first.toNat + second.toNat * 256
        let period := 2 <<< (encoded % 16)
        let quantizeFactor := max (period >>> 12) 1
        let phase := (encoded >>> 4) * quantizeFactor
        if 4 ≤ period ∧ phase < period then
          some (.mortal (UInt64.ofNat period) (UInt64.ofNat phase), rest)
        else none

instance : Codec Era := ⟨Era.encode, Era.decode⟩

/-- An immortal era is the byte `0`. -/
@[simp] lemma encode_immortal : Codec.encode Era.immortal = [0] := rfl

/-- A zero byte decodes as the immortal era. -/
lemma decode_era_zero (bs : Bytes) : (Codec.decode (0 :: bs) : Option (Era × Bytes)) = some (.immortal, bs) :=
  rfl

/-! ## Unchecked extrinsics -/

/-- `TRANSACTION_VERSION`. -/
def transactionVersion : UInt8 := 1

/-- `UncheckedMortalCompactExtrinsic`: for a signed transaction, the sender's address, the
signature, the nonce and the era; then the call. -/
structure UncheckedExtrinsic (Address Signature Call : Type) where
  signature : Option (Address × Signature × UInt64 × Era)
  function : Call

section Extrinsic

variable {Address Signature Call : Type} [Codec Address] [Codec Signature]
  (encodeCall : Call → Bytes)

/-- The bytes after the length prefix: the version byte, the signature part and the call,
encoded by `encodeCall` (the runtime's `Call`, whose codec `construct_runtime!` derives). -/
def UncheckedExtrinsic.payload (xt : UncheckedExtrinsic Address Signature Call) : Bytes :=
  match xt.signature with
  | some (address, signature, index, era) =>
    (transactionVersion ||| 0x80) ::
      (Codec.encode address ++ Codec.encode signature ++ encodeCompact index.toNat ++
        Codec.encode era ++ encodeCall xt.function)
  | none => (transactionVersion &&& 0x7f) :: encodeCall xt.function

/-- `UncheckedMortalCompactExtrinsic::encode`: the payload with its `Compact` length in
front, as `encode_with_vec_prefix` writes it. -/
def UncheckedExtrinsic.encode (xt : UncheckedExtrinsic Address Signature Call) : Bytes :=
  encodeCompact (xt.payload encodeCall).length ++ xt.payload encodeCall

/-- `is_signed`. -/
def UncheckedExtrinsic.isSigned (xt : UncheckedExtrinsic Address Signature Call) : Bool :=
  xt.signature.isSome

/-- An unsigned transaction's payload is the version byte `1` and the call. -/
@[simp] lemma payload_unsigned (function : Call) :
    (⟨none, function⟩ : UncheckedExtrinsic Address Signature Call).payload encodeCall =
      1 :: encodeCall function := rfl

/-- A signed transaction's payload starts with the version byte `0x81`. -/
@[simp] lemma payload_signed (address : Address) (signature : Signature) (index : UInt64)
    (era : Era) (function : Call) :
    (⟨some (address, signature, index, era), function⟩ :
        UncheckedExtrinsic Address Signature Call).payload encodeCall =
      0x81 :: (Codec.encode address ++ Codec.encode signature ++ encodeCompact index.toNat ++
        Codec.encode era ++ encodeCall function) := rfl

end Extrinsic

end Substrate

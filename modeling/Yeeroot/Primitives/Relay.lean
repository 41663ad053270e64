import Yeeroot.Substrate.Extrinsic
import Yeeroot.Rust.Prelude

/-!
# The relay readers of `yee-sr-primitives`

A transfer to an account of another shard is paid out there by a *relay* transaction, an
unsigned `Relay::transfer(relay_type, origin, number, block_hash, parent_hash)` whose
`origin` is the bytes of the signed transfer on the source shard.  Three readers look into
raw bytes instead of decoding the typed call:

* `RelayParams.decode` recognises a relay transaction in the bytes of any transaction.  The
  executive's replay guard, the verifier's proof check and the transaction pool's filter all
  act only on the transactions it recognises.
* `OriginExtrinsic.decode` reads the sender, destination and amount of a transfer out of
  its bytes, with the layout of a balances transfer or of an assets transfer as
  `relay_type` says.
* `OriginExtrinsic.decodeType` tells the two layouts apart by the call's module byte.

The readers assume a fixed layout: the length prefix, the version byte, for a signed
transaction a type byte and the sender's 32 bytes, the signature, nonce and era, then the
call's module and function bytes and the arguments, the destination again as a type byte
and an account.  Their lemmas here say what they return on the bytes of the transactions they
are meant for: `relayParams_decode_unsigned` (every relay transaction with a readable origin
is recognised) and `relayParams_decode_signed` (no signed transaction is).

Blake2 is the node's hash function and a parameter here; the runtime's `Hash` is `H256`.
-/

namespace Yeeroot
namespace Primitives

open Scale Substrate Rust

/-- `RelayTypes`: which module's transfer a relay pays out. -/
inductive RelayTypes where
  | balance
  | assets
deriving DecidableEq

/-- The derived codec of `RelayTypes`. -/
instance : Codec RelayTypes where
  encode
    | .balance => [0]
    | .assets => [1]
  decode
    | 0 :: bs => some (.balance, bs)
    | 1 :: bs => some (.assets, bs)
    | _ => none

instance : LawfulCodec RelayTypes := ⟨fun r _ => by cases r <;> rfl⟩

/-- `RelayParams`: what a relay transaction carries, with the hash of its origin. -/
structure RelayParams where
  number : UInt64
  hash : H256
  blockHash : H256
  parentHash : H256
  relayType : RelayTypes
  origin : Bytes
deriving DecidableEq

/-- `SHARD_CODE_SIZE`: the bytes of an issuer's account that name its asset's shard code. -/
def shardCodeSize : ℕ := 2

/-- `MIN_RELAY_SIZE`. -/
def minRelaySize : ℕ := 2 + 32 + 32 + 64

/-- `OriginExtrinsic`: a transfer read out of its bytes. -/
structure OriginExtrinsic (AccountId Balance : Type) where
  shard : Bytes
  id : Option UInt32
  sender : AccountId
  signature : Bytes
  index : UInt64
  era : Era
  dest : AccountId
  amount : Balance
deriving DecidableEq

section Decode

variable (blake2 : Bytes → H256)

/-- `RelayParams::decode`: an unsigned transaction of version `1`, longer than
`MIN_RELAY_SIZE`, whose arguments after the module and function bytes read as a relay type,
an origin, a `Compact` block number and two hashes. -/
def RelayParams.decode (input : Bytes) : Option RelayParams := do
  if input.length ≤ minRelaySize then none
  let ((_ : List Unit), input) ← Codec.decode input
  let (version, input) ← (Codec.decode input : Option (UInt8 × Bytes))
  let isSigned := version &&& 0x80 != 0
  let version := version &&& 0x7f
  if isSigned || version != 1 then none
  -- module and function
  let ((_ : UInt8), input) ← Codec.decode input
  let ((_ : UInt8), input) ← Codec.decode input
  let (relayType, input) ← Codec.decode input
  let (origin, input) ← (Codec.decode input : Option (Bytes × Bytes))
  let (number, input) ← decodeCompact 8 input
  let (blockHash, input) ← Codec.decode input
  let (parentHash, _) ← Codec.decode input
  -- `Decode::decode(&mut hash.encode()).unwrap()` at `Hash = H256` is the hash itself
  return ⟨UInt64.ofNat number, blake2 origin, blockHash, parentHash, relayType, origin⟩

variable {AccountId Balance : Type} [Codec AccountId] [Inhabited AccountId] [Codec Balance]

/-- The signed part of a transaction as `OriginExtrinsic::decode` reads it: a type byte and
the sender's account, 64 signature bytes, the `Compact` nonce, and the era. -/
def decodeSigner (input : Bytes) : Option ((AccountId × Bytes × UInt64 × Era) × Bytes) := do
  let ((_ : UInt8), input) ← Codec.decode input
  let (sender, input) ← (Codec.decode input : Option (AccountId × Bytes))
  if input.length < 64 then none
  let signature := input.take 64
  let input := input.drop 64
  let (index, input) ← decodeCompact 8 input
  if input.length < 1 then none
  -- a zero byte is the immortal era; anything else is decoded as an era
  let (era, input) ←
    if input.head? ≠ some 0 then (Codec.decode input : Option (Era × Bytes))
    else some (Era.immortal, input.drop 1)
  return ((sender, signature, UInt64.ofNat index, era), input)

/-- `OriginExtrinsic::decode`: the transfer in `input`, read with the layout `relay_type`
names: an assets transfer has the shard code and the `Compact` asset id before the
destination. -/
def OriginExtrinsic.decode (relayType : RelayTypes) (input : Bytes) :
    Option (OriginExtrinsic AccountId Balance) := do
  if input.length < 64 + 1 + 1 then none
  let ((_ : List Unit), input) ← Codec.decode input
  let (version, input) ← (Codec.decode input : Option (UInt8 × Bytes))
  let isSigned := version &&& 0x80 != 0
  let version := version &&& 0x7f
  if version != 1 then none
  let ((sender, signature, index, era), input) ←
    if isSigned then decodeSigner input else some ((default, [], 0, .immortal), input)
  if input.length < 2 + 32 + 1 then none
  -- module and function
  let ((_ : UInt8), input) ← Codec.decode input
  let ((_ : UInt8), input) ← Codec.decode input
  let (shardCode, id, input) ←
    if relayType = .assets then do
      let (shardCode, input) ← (Codec.decode input : Option (Bytes × Bytes))
      let (id, input) ← decodeCompact 4 input
      pure (shardCode, id, input)
    else pure ([], 0, input)
  -- the destination's type byte, then the account
  let ((_ : UInt8), input) ← Codec.decode input
  let (dest, input) ← (Codec.decode input : Option (AccountId × Bytes))
  -- a `Compact<u128>`, re-encoded as a `u128` and decoded as the balance type
  let (a, _) ← decodeCompact 16 input
  let (amount, _) ← (Codec.decode (encodeLE 16 a) : Option (Balance × Bytes))
  -- the source's last `else { None }` is unreachable: there are two relay types
  match relayType with
  | .assets => some ⟨shardCode, some (UInt32.ofNat id), sender, signature, index, era, dest, amount⟩
  | .balance => some ⟨shardCode, none, sender, signature, index, era, dest, amount⟩

variable (AccountId) in
/-- The bytes after the signed part, as `OriginExtrinsic::decode_type` skips it; it slices
the signature and reads the era's first byte without checking the length. -/
def skipSigner (input : Bytes) : Except Panic (Option Bytes) :=
  match (Codec.decode input : Option (UInt8 × Bytes)) with
  | none => .ok none
  | some (_, input) =>
    match (Codec.decode input : Option (AccountId × Bytes)) with
    | none => .ok none
    | some (_, input) =>
      if input.length < 64 then .error (Panic.sliceIndexLen 64 input.length)
      else
        match decodeCompact 8 (input.drop 64) with
        | none => .ok none
        | some (_, input) =>
          match input with
          | [] => .error (Panic.indexOutOfBounds 0 0)
          | 0 :: rest => .ok (some rest)
          | input => .ok ((Codec.decode input : Option (Era × Bytes)).map Prod.snd)

variable (AccountId) in
/-- `OriginExtrinsic::decode_type`: the layout of a transfer, from its module byte: `4` is
`Balances`, `8` is `Assets`. -/
def OriginExtrinsic.decodeType (input : Bytes) : Except Panic (Option RelayTypes) :=
  match (Codec.decode input : Option (List Unit × Bytes)) with
  | none => .ok none
  | some (_, input) =>
    match (Codec.decode input : Option (UInt8 × Bytes)) with
    | none => .ok none
    | some (version, input) =>
      let afterSigner : Except Panic (Option Bytes) :=
        if version &&& 0x80 != 0 then skipSigner AccountId input else .ok (some input)
      afterSigner.map fun input? => input?.bind fun input =>
        (Codec.decode input : Option (UInt8 × Bytes)).bind fun (module, _) =>
          if module = 4 then some .balance else if module = 8 then some .assets else none

/-- A transfer `OriginExtrinsic::decode` reads is at least 66 bytes long. -/
lemma originExtrinsic_decode_length {relayType : RelayTypes} {input : Bytes}
    (h : (OriginExtrinsic.decode relayType input :
      Option (OriginExtrinsic AccountId Balance)).isSome) : 64 + 1 + 1 ≤ input.length := by
  by_contra hlt
  rw [not_le] at hlt
  simp [OriginExtrinsic.decode, hlt] at h

end Decode

/-! ## What the relay reader recognises -/

section Recognise

variable (blake2 : Bytes → H256)

/-- **Every relay transaction with a readable origin is recognised.**  The bytes of an
unsigned transaction whose arguments are those of `Relay::transfer`, with an origin of at
least the 66 bytes `OriginExtrinsic::decode` asks for, are longer than `MIN_RELAY_SIZE` and
read back as the relay they carry. -/
theorem relayParams_decode_unsigned {m f : UInt8} {relayType : RelayTypes} {origin : Bytes}
    {number : UInt64} {blockHash parentHash : H256} {payload : Bytes}
    (hpayload : payload = 1 :: m :: f :: (Codec.encode relayType ++ Codec.encode origin ++
      encodeCompact number.toNat ++ Codec.encode blockHash ++ Codec.encode parentHash))
    (hlen : payload.length < 2 ^ 32) (horigin : 66 ≤ origin.length)
    (horigin32 : origin.length < 2 ^ 32) :
    RelayParams.decode blake2 (encodeCompact payload.length ++ payload) =
      some ⟨number, blake2 origin, blockHash, parentHash, relayType, origin⟩ := by
  have hlong : ¬ (encodeCompact payload.length ++ payload).length ≤ minRelaySize := by
    have hrt : (Codec.encode relayType).length = 1 := by cases relayType <;> rfl
    have hpl : 136 ≤ payload.length := by
      rw [hpayload]
      simp only [List.length_cons, List.length_append, hrt, encode_bytes, encode_fixedBytes_length]
      have := encodeCompact_length_pos number.toNat
      have := encodeCompact_length_pos origin.length
      omega
    simp only [List.length_append, minRelaySize]
    omega
  rw [RelayParams.decode, if_neg hlong]
  simp only [decode_unitVec _ hlen]
  subst hpayload
  have hversion : (1 : UInt8) &&& 0x80 = 0 ∧ (1 : UInt8) &&& 0x7f = 1 := by decide
  have horig : ∀ rest, (Codec.decode (Codec.encode origin ++ rest) : Option (Bytes × Bytes)) =
      some (origin, rest) := roundTrips_vec horigin32
  have hnum := decodeCompact_encodeCompact 8 number.toNat (by norm_num) (by norm_num)
    (by simpa using number.toNat_lt)
  have hhash : RoundTrips blockHash := roundTrips blockHash
  simp [hversion, horig, hnum, hhash _]

/-- No transaction whose version byte has the signed bit is recognised as a relay. -/
lemma relayParams_decode_of_signed_bit {version : UInt8} (hv : version &&& 0x80 ≠ 0)
    {rest : Bytes} (hlen : (version :: rest).length < 2 ^ 32) :
    RelayParams.decode blake2 (encodeCompact (version :: rest).length ++ version :: rest) =
      none := by
  rw [RelayParams.decode]
  split_ifs with hshort
  · rfl
  · simp only [decode_unitVec _ hlen]
    simp [hv]

/-- **No signed transaction is recognised as a relay**, whatever its call. -/
theorem relayParams_decode_signed {Address Signature Call : Type} [Codec Address]
    [Codec Signature] (encodeCall : Call → Bytes) (xt : UncheckedExtrinsic Address Signature Call)
    (hsigned : xt.isSigned) (hlen : (xt.payload encodeCall).length < 2 ^ 32) :
    RelayParams.decode blake2 (xt.encode encodeCall) = none := by
  obtain ⟨signature, function⟩ := xt
  obtain ⟨⟨address, sig, index, era⟩, hsig⟩ := Option.isSome_iff_exists.mp hsigned
  subst hsig
  rw [UncheckedExtrinsic.encode, payload_signed]
  rw [payload_signed] at hlen
  exact relayParams_decode_of_signed_bit blake2 (by decide) hlen

end Recognise

end Primitives
end Yeeroot

import Yeeroot.Sharding.Digest
import Yeeroot.Pow.Seal

/-!
# The readers of a header digest

Four pieces of code read the shard info and the relay proof out of a header's digest, each
with its own rules:

* the node's `ShardingDigestItem::as_sharding_info` and `CompatibleDigestItem::as_pow_seal`,
  on the typed items, taking the last item that matches;
* the runtime's `Executive::digest_items`, on the encoded list, which it decodes with a
  private `DigestItemEnum` and then walks, keeping the last match; the shard marker must be
  exactly six bytes long there;
* the switch's `parse_shard_info`, on the encoded items one by one, taking the first match.

`DigestItemEnum` declares `AuthoritiesChange`, `ChangesTrieRoot` and `Seal` without the
fields that substrate's `DigestItem` gives them, so on an encoded list holding one of these
the decoder reads the fields as the next items (`digest_items_panics_on_authorities_change`).
-/

namespace Yeeroot
namespace Readers

open Scale Substrate Rust Sharding Yeeroot.Pow

/-- `YEE_POW_ENGINE_ID`: the bytes of `Yee!`. -/
def yeePowEngineId : ConsensusEngineId := ⟨[0x59, 0x65, 0x65, 0x21], rfl⟩

/-! ## The node -/

section Node

variable {Hash AuthorityId SealSignature : Type}

/-- `CompatibleDigestItem::as_pow_seal`: a consensus item of the PoW engine, decoded. -/
def asPowSeal {SealAuthority SealHash : Type} [Codec SealAuthority] [Codec SealHash] :
    DigestItem Hash AuthorityId SealSignature → Except Panic (Option (PowSeal SealAuthority SealHash))
  | .consensus engine data => if engine = yeePowEngineId then decodePowSeal data else .ok none
  | _ => .ok none

/-- `iter().filter_map(f).next()` for a reader that can panic: the first item `f` accepts,
unless `f` panics on an item before it. -/
def firstSomeM {α β ε : Type} (f : α → Except ε (Option β)) : List α → Except ε (Option β)
  | [] => .ok none
  | a :: as =>
    match f a with
    | .error e => .error e
    | .ok (some b) => .ok (some b)
    | .ok none => firstSomeM f as

/-- The seal the node reads from a digest: the last PoW item, read from the end. -/
def lastPowSeal {SealAuthority SealHash : Type} [Codec SealAuthority] [Codec SealHash]
    (items : List (DigestItem Hash AuthorityId SealSignature)) :
    Except Panic (Option (PowSeal SealAuthority SealHash)) :=
  firstSomeM asPowSeal items.reverse

end Node

/-! ## The runtime -/

/-- The runtime's `DigestItemEnum`, whose middle three variants have no fields. -/
inductive DigestItemEnum where
  | other (data : Bytes)
  | authoritiesChange
  | changesTrieRoot
  | seal
  | consensus (engine : ConsensusEngineId) (data : Bytes)
deriving DecidableEq

/-- The derived codec of `DigestItemEnum`.  The source derives only `Decode`; the encoding
here is the one `derive(Encode)` would add, and no modelled function uses it. -/
instance : Codec DigestItemEnum where
  encode
    | .other data => 0 :: encode data
    | .authoritiesChange => [1]
    | .changesTrieRoot => [2]
    | .seal => [3]
    | .consensus engine data => 4 :: encode (engine, data)
  decode
    | 0 :: bs => (decode bs).map fun (data, rest) => (.other data, rest)
    | 1 :: bs => some (.authoritiesChange, bs)
    | 2 :: bs => some (.changesTrieRoot, bs)
    | 3 :: bs => some (.seal, bs)
    | 4 :: bs => (decode bs).map fun ((engine, data), rest) => (.consensus engine data, rest)
    | _ => none

/-- `SHARD_MODULE_PREFIX` of `yee-executive`. -/
def shardModulePrefix : UInt8 := 2

/-- `SHARD_SHARDING_PREFIX` of `yee-executive`. -/
def shardShardingPrefix : UInt8 := 0

/-- The runtime's copy of `decode_pow_seal`, over its `DummyPowSeal`: the node's decoder at
a 32-byte authority and `H256` hashes. -/
def decodeDummyPowSeal (bytes : Bytes) : Except Panic (Option (PowSeal (FixedBytes 32) H256)) :=
  decodePowSeal bytes

/-- One item of the walk of `Executive::digest_items`: a six-byte shard marker sets the
shard, a consensus item that decodes as a seal sets the relay proof; a later match
overwrites an earlier one. -/
def digestItemStep (acc : Option (UInt16 × UInt16) × Option H256) :
    DigestItemEnum → Except Panic (Option (UInt16 × UInt16) × Option H256)
  | .other data =>
    if data.length = 6 ∧ data[0]? = some shardModulePrefix ∧ data[1]? = some shardShardingPrefix then
      match (decode (data.drop 2) : Option (UInt16 × Bytes)) with
      | some (shardNum, input) =>
        match (decode input : Option (UInt16 × Bytes)) with
        | some (shardCount, _) => .ok (some (shardNum, shardCount), acc.2)
        | none => .ok acc
      | none => .ok acc
    else .ok acc
  | .consensus _ data =>
    match decodeDummyPowSeal data with
    | .error p => .error p
    | .ok (some powSeal) => .ok (acc.1, some powSeal.relayProof)
    | .ok none => .ok acc
  | _ => .ok acc

/-- `Executive::digest_items`: the encoded list is decoded, with an `unwrap`, and walked. -/
def digestItems (logs : Bytes) : Except Panic (Option (UInt16 × UInt16) × Option H256) :=
  match (decode logs : Option (List DigestItemEnum × Bytes)) with
  | none => .error Panic.unwrapNone
  | some (items, _) => items.foldlM digestItemStep (none, none)

/-! ## The switch -/

/-- `parse_shard_info` on the encoded items of a header: the first `Other` item holding a
shard marker of at least six bytes. -/
def parseShardInfo (logs : List Bytes) : Option (UInt16 × UInt16) :=
  logs.findSome? fun item =>
    match item with
    | 0 :: input => do
      let (data, _) ← (decode input : Option (Bytes × Bytes))
      if 6 ≤ data.length ∧ data[0]? = some generatedModuleLogPrefix ∧
          data[1]? = some generatedShardingPrefix then
        let (shardNum, input) ← (decode (data.drop 2) : Option (UInt16 × Bytes))
        let (shardCount, _) ← (decode input : Option (UInt16 × Bytes))
        some (shardNum, shardCount)
      else none
    | _ => none

/-! ## An authorities change -/

/-- The authority key made of the byte `b`. -/
def authority (b : UInt8) : FixedBytes 32 := ⟨List.replicate 32 b, List.length_replicate⟩

/-- A digest of shard 0 of four whose block changed the consensus authorities to two keys,
sealed with the bytes `sealData`. -/
def changeDigest (sealData : Bytes) : List (DigestItem H256 (FixedBytes 32) (FixedBytes 64)) :=
  [shardingInfo (0 : UInt16) 4, .authoritiesChange [authority 1, authority 2],
    .consensus yeePowEngineId sealData]

theorem digest_items_panics_on_authorities_change (sealData : Bytes) :
    digestItems (encode (changeDigest sealData)) = .error Panic.unwrapNone ∧
      lastFilterMap asShardingInfo (changeDigest sealData) = some ((0 : UInt16), (4 : UInt16)) ∧
      parseShardInfo ((changeDigest sealData).map encode) = some (0, 4) := by
  refine ⟨?_, rfl, rfl⟩
  -- the list decoder stops at the third item, which starts at the authorities' count
  have hdecode :
      (decode (encode (changeDigest sealData)) : Option (List DigestItemEnum × Bytes)) = none := by
    show decodeVec (encodeVec (changeDigest sealData)) = none
    have hcount : ∀ t, decodeCompact 4 (encodeCompact 3 ++ t) = some (3, t) := fun _ => rfl
    simp only [decodeVec, encodeVec, changeDigest, List.length_cons, List.length_nil, hcount]
    rfl
  rw [digestItems, hdecode]

end Readers
end Yeeroot

import Yeeroot.Substrate.Primitives

/-!
# Sharding digest items

`core/sharding` (`yee-sharding`) reads the sharding module's logs back out of a header
digest.  A log of the runtime's sharding module is `DigestItem::Other` whose first byte is
the module's log index, `GENERATED_MODULE_LOG_PREFIX`, and whose second byte is the variant
of the module's `RawLog`: `GENERATED_SHARDING_PREFIX` for the shard marker,
`GENERATED_SCALE_OUT_PHASE_PREFIX` for the scale-out phase.  This crate has its own copy of
`ScaleOutPhase`, which must list its variants in the runtime's order for the digest to be
read back.

The main results are the two round trips, `asShardingInfo_shardingInfo` and
`asScaleOutPhase_scaleOutPhase`: what the writer puts in a digest item, the reader takes out.
-/

namespace Yeeroot
namespace Sharding

open Scale Substrate

/-- `GENERATED_MODULE_LOG_PREFIX`: the sharding module's index among the runtime's logs. -/
def generatedModuleLogPrefix : UInt8 := 2

/-- `GENERATED_SHARDING_PREFIX`. -/
def generatedShardingPrefix : UInt8 := 0

/-- `GENERATED_SCALE_OUT_PHASE_PREFIX`. -/
def generatedScaleOutPhasePrefix : UInt8 := 1

/-- The node's `ScaleOutPhase`. -/
inductive ScaleOutPhase (BlockNumber ShardNum : Type) where
  | started (observeUtil : BlockNumber) (shardNum : ShardNum)
  | nativeReady (observeUtil : BlockNumber) (shardNum : ShardNum)
  | ready (observeUtil : BlockNumber) (shardNum : ShardNum)
  | committing (shardCount : ShardNum)
  | committed (shardNum : ShardNum) (shardCount : ShardNum)
deriving DecidableEq

/-- The derived codec of `ScaleOutPhase`: the variant index, then the fields. -/
instance {BlockNumber ShardNum : Type} [Codec BlockNumber] [Codec ShardNum] :
    Codec (ScaleOutPhase BlockNumber ShardNum) where
  encode
    | .started observeUtil shardNum => 0 :: encode (observeUtil, shardNum)
    | .nativeReady observeUtil shardNum => 1 :: encode (observeUtil, shardNum)
    | .ready observeUtil shardNum => 2 :: encode (observeUtil, shardNum)
    | .committing shardCount => 3 :: encode shardCount
    | .committed shardNum shardCount => 4 :: encode (shardNum, shardCount)
  decode
    | 0 :: bs => (decode bs).map fun ((observeUtil, shardNum), rest) =>
        (.started observeUtil shardNum, rest)
    | 1 :: bs => (decode bs).map fun ((observeUtil, shardNum), rest) =>
        (.nativeReady observeUtil shardNum, rest)
    | 2 :: bs => (decode bs).map fun ((observeUtil, shardNum), rest) =>
        (.ready observeUtil shardNum, rest)
    | 3 :: bs => (decode bs).map fun (shardCount, rest) => (.committing shardCount, rest)
    | 4 :: bs => (decode bs).map fun ((shardNum, shardCount), rest) =>
        (.committed shardNum shardCount, rest)
    | _ => none

instance {BlockNumber ShardNum : Type} [Codec BlockNumber] [LawfulCodec BlockNumber]
    [Codec ShardNum] [LawfulCodec ShardNum] : LawfulCodec (ScaleOutPhase BlockNumber ShardNum) where
  decode_encode_append p rest := by
    cases p <;> simp [encode, decode]

section Items

variable {Hash AuthorityId SealSignature ShardNum BlockNumber : Type}

/-- The module prefix of a sharding digest item, with a second byte checked by `as_*`. -/
def IsModuleItem (data : Bytes) (second : UInt8) : Prop :=
  4 ≤ data.length ∧ data[0]? = some generatedModuleLogPrefix ∧ data[1]? = some second

instance (data : Bytes) (second : UInt8) : Decidable (IsModuleItem data second) :=
  inferInstanceAs (Decidable (4 ≤ data.length ∧ data[0]? = some generatedModuleLogPrefix ∧
    data[1]? = some second))

/-- `ShardingDigestItem::sharding_info`. -/
def shardingInfo [Codec ShardNum] (num cnt : ShardNum) : DigestItem Hash AuthorityId SealSignature :=
  .other ([generatedModuleLogPrefix, generatedShardingPrefix] ++ encode (num, cnt))

/-- `ShardingDigestItem::as_sharding_info`. -/
def asShardingInfo [Codec ShardNum] :
    DigestItem Hash AuthorityId SealSignature → Option (ShardNum × ShardNum)
  | .other data =>
    if IsModuleItem data generatedShardingPrefix then do
      let (num, input) ← decode (data.drop 2)
      let (cnt, _) ← decode input
      return (num, cnt)
    else none
  | _ => none

/-- `ScaleOutPhaseDigestItem::scale_out_phase`. -/
def scaleOutPhase [Codec BlockNumber] [Codec ShardNum]
    (scaleOutPhase : ScaleOutPhase BlockNumber ShardNum) : DigestItem Hash AuthorityId SealSignature :=
  .other ([generatedModuleLogPrefix, generatedScaleOutPhasePrefix] ++ encode scaleOutPhase)

/-- `ScaleOutPhaseDigestItem::as_scale_out_phase`. -/
def asScaleOutPhase [Codec BlockNumber] [Codec ShardNum] :
    DigestItem Hash AuthorityId SealSignature → Option (ScaleOutPhase BlockNumber ShardNum)
  | .other data =>
    if IsModuleItem data generatedScaleOutPhasePrefix then
      (decode (data.drop 2)).map Prod.fst
    else none
  | _ => none

/-! ## Round trips -/

/-- A shard marker is read back, when the two numbers take four bytes or more. -/
lemma asShardingInfo_shardingInfo [Codec ShardNum] [LawfulCodec ShardNum] (num cnt : ShardNum)
    (hlen : 2 ≤ (encode (num, cnt)).length) :
    asShardingInfo (shardingInfo num cnt : DigestItem Hash AuthorityId SealSignature) =
      some (num, cnt) := by
  have hitem : IsModuleItem ([generatedModuleLogPrefix, generatedShardingPrefix] ++
      encode (num, cnt)) generatedShardingPrefix := by
    refine ⟨?_, rfl, rfl⟩
    simp only [List.length_append, List.length_cons, List.length_nil]
    omega
  rw [shardingInfo, asShardingInfo, if_pos hitem]
  simp

/-- A scale-out phase is read back, when it takes two bytes or more. -/
lemma asScaleOutPhase_scaleOutPhase [Codec BlockNumber] [LawfulCodec BlockNumber]
    [Codec ShardNum] [LawfulCodec ShardNum] (p : ScaleOutPhase BlockNumber ShardNum)
    (hlen : 2 ≤ (encode p).length) :
    asScaleOutPhase (scaleOutPhase p : DigestItem Hash AuthorityId SealSignature) = some p := by
  have hitem : IsModuleItem ([generatedModuleLogPrefix, generatedScaleOutPhasePrefix] ++
      encode p) generatedScaleOutPhasePrefix := by
    refine ⟨?_, rfl, rfl⟩
    simp only [List.length_append, List.length_cons, List.length_nil]
    omega
  rw [scaleOutPhase, asScaleOutPhase, if_pos hitem]
  simp

/-- Items of other modules are not read as sharding items. -/
lemma asShardingInfo_of_not_module [Codec ShardNum] {data : Bytes}
    (h : data[0]? ≠ some generatedModuleLogPrefix) :
    (asShardingInfo (.other data : DigestItem Hash AuthorityId SealSignature) :
      Option (ShardNum × ShardNum)) = none := by
  simp [asShardingInfo, IsModuleItem, h]

end Items

end Sharding
end Yeeroot

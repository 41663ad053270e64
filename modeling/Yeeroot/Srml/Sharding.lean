import Yeeroot.Substrate.Primitives

/-!
# The runtime's sharding module

`srml/yee-sharding`: the inherent `set_shard_info` that every block carries, and the
scale-out state machine it drives.  A block's inherent `ShardInfo` gives the shard the
block is mined for (`num`, `count`) and, when the miner is scaling out, the shard it will
serve afterwards (`scale_out`).  The first block that asks for a scale-out starts the
observation: `None → Started → NativeReady → Ready → Commiting → Committed → None`, where
each of the first three phases waits until the block `observe_util` it recorded, which is
`scale_out_observe_blocks` after the block that entered it.  `on_finalize` deposits the shard
marker and the current phase as header digest items.

The state is the module's storage together with the block number of `system`; block numbers
and shard numbers are the runtime's `u64` and `u16` in the theorems, and generic here as in
the source.  `setShardInfo_inherent` is the call's one spec lemma: the scale-out agreement
(`Yeeroot.Sharding.ScaleOut`) reasons about `nextScaleOutPhase` through it.
-/

namespace Yeeroot
namespace Srml
namespace Sharding

open Scale Substrate

/-! ## Data -/

/-- `ScaleOut`: the shard a scaling-out miner moves to. -/
structure ScaleOut (N : Type) where
  shardNum : N
deriving DecidableEq

/-- `ShardInfo`: the inherent data of a block. -/
structure ShardInfo (N : Type) where
  num : N
  count : N
  scaleOut : Option (ScaleOut N)
deriving DecidableEq

/-- The runtime's `ScaleOutPhase`.  The source spells the fourth variant `Commiting`. -/
inductive ScaleOutPhase (BlockNumber ShardNum : Type) where
  | started (observeUtil : BlockNumber) (shardNum : ShardNum)
  | nativeReady (observeUtil : BlockNumber) (shardNum : ShardNum)
  | ready (observeUtil : BlockNumber) (shardNum : ShardNum)
  | commiting (shardCount : ShardNum)
  | committed (shardNum : ShardNum) (shardCount : ShardNum)
deriving DecidableEq

/-- `RawLog`: the module's digest logs. -/
inductive RawLog (ShardNum BlockNumber : Type) where
  | shardMarker (num : ShardNum) (count : ShardNum)
  | scaleOutPhase (phase : ScaleOutPhase BlockNumber ShardNum)
deriving DecidableEq

/-- The derived encoding of `ScaleOutPhase`: the variant index, then the fields. -/
def ScaleOutPhase.encode {BlockNumber ShardNum : Type} [Codec BlockNumber] [Codec ShardNum] :
    ScaleOutPhase BlockNumber ShardNum → Bytes
  | .started observeUtil shardNum => 0 :: Codec.encode (observeUtil, shardNum)
  | .nativeReady observeUtil shardNum => 1 :: Codec.encode (observeUtil, shardNum)
  | .ready observeUtil shardNum => 2 :: Codec.encode (observeUtil, shardNum)
  | .commiting shardCount => 3 :: Codec.encode shardCount
  | .committed shardNum shardCount => 4 :: Codec.encode (shardNum, shardCount)

/-- The derived encoding of `RawLog`. -/
def RawLog.encode {ShardNum BlockNumber : Type} [Codec ShardNum] [Codec BlockNumber] :
    RawLog ShardNum BlockNumber → Bytes
  | .shardMarker num count => 0 :: Codec.encode (num, count)
  | .scaleOutPhase phase => 1 :: phase.encode

/-- The index of `Sharding` among the modules of `construct_runtime!` that have logs
(`System`, `Consensus`, `Sharding`, …): the first byte of the runtime log that wraps a
`RawLog` of this module. -/
def logIndex : UInt8 := 2

/-- `deposit_log`: the runtime log `Log::from(log)` becomes `DigestItem::Other` of its
encoding, as it is not one of the digest items `system` knows. -/
def depositLog {ShardNum BlockNumber Hash AuthorityId SealSignature : Type} [Codec ShardNum]
    [Codec BlockNumber] (log : RawLog ShardNum BlockNumber) :
    DigestItem Hash AuthorityId SealSignature :=
  .other (logIndex :: log.encode)

/-! ## Storage and calls -/

/-- The module's storage, with the block number of `system` it reads. -/
structure Storage (BlockNumber ShardNum : Type) where
  /-- `system::Number`. -/
  blockNumber : BlockNumber
  scaleOutObserveBlocks : BlockNumber
  currentShardInfo : Option (ShardInfo ShardNum)
  currentScaleOutPhase : Option (ScaleOutPhase BlockNumber ShardNum)

section Calls

variable {BlockNumber ShardNum : Type} [Add BlockNumber] [DecidableEq BlockNumber] [Add ShardNum]

/-- The next phase, the `match current_scale_out_phase` of `set_shard_info`: `none` where the
source leaves the phase untouched. -/
def nextScaleOutPhase (blockNumber scaleOutObserveBlocks : BlockNumber) (info : ShardInfo ShardNum)
    (targetShardNum : ShardNum) :
    Option (ScaleOutPhase BlockNumber ShardNum) → Option (Option (ScaleOutPhase BlockNumber ShardNum))
  | none =>
    match info.scaleOut with
    | some _ => some (some (.started (blockNumber + scaleOutObserveBlocks) targetShardNum))
    | none => none
  | some (.started observeUtil _) =>
    if observeUtil = blockNumber then
      some (some (.nativeReady (blockNumber + scaleOutObserveBlocks) targetShardNum))
    else none
  | some (.nativeReady observeUtil _) =>
    if observeUtil = blockNumber then
      some (some (.ready (blockNumber + scaleOutObserveBlocks) targetShardNum))
    else none
  | some (.ready observeUtil _) =>
    if observeUtil = blockNumber then some (some (.commiting (info.count + info.count)))
    else none
  | some (.commiting shardCount) => some (some (.committed targetShardNum shardCount))
  | some (.committed _ _) => some none

/-- `set_shard_info`: an inherent that stores the block's shard info and advances the
scale-out phase. -/
def setShardInfo {AccountId : Type} (origin : RawOrigin AccountId) (info : ShardInfo ShardNum)
    (st : Storage BlockNumber ShardNum) : Except String (Storage BlockNumber ShardNum) := do
  ensureInherent origin
  let st := { st with currentShardInfo := some info }
  let targetShardNum :=
    match info.scaleOut with
    | some scaleOut => scaleOut.shardNum
    | none => info.num
  match nextScaleOutPhase st.blockNumber st.scaleOutObserveBlocks info targetShardNum
      st.currentScaleOutPhase with
  | some phase => return { st with currentScaleOutPhase := phase }
  | none => return st

/-- The target of a block's shard info: its scale-out shard, or its own shard. -/
def ShardInfo.targetShardNum (info : ShardInfo ShardNum) : ShardNum :=
  match info.scaleOut with
  | some scaleOut => scaleOut.shardNum
  | none => info.num

/-- **`set_shard_info` as an inherent**: it never fails, stores the shard info and moves to
the next phase, if any. -/
lemma setShardInfo_inherent {AccountId : Type} (info : ShardInfo ShardNum)
    (st : Storage BlockNumber ShardNum) :
    setShardInfo (.inherent : RawOrigin AccountId) info st =
      .ok { st with
        currentShardInfo := some info
        currentScaleOutPhase :=
          (nextScaleOutPhase st.blockNumber st.scaleOutObserveBlocks info info.targetShardNum
            st.currentScaleOutPhase).getD st.currentScaleOutPhase } := by
  simp only [setShardInfo, ensureInherent, ShardInfo.targetShardNum]
  split <;> simp_all [bind, Except.bind, pure, Except.pure]

/-- Any other origin is rejected. -/
lemma setShardInfo_not_inherent {AccountId : Type} {origin : RawOrigin AccountId}
    (h : origin ≠ .inherent) (info : ShardInfo ShardNum) (st : Storage BlockNumber ShardNum) :
    setShardInfo origin info st = .error "bad origin: expected to be an inherent origin" := by
  cases origin <;> simp_all [setShardInfo, ensureInherent, bind, Except.bind]

end Calls

/-- `on_finalize`: the logs the module deposits, in order: the shard marker of the stored
shard info, then the stored phase, each if there is one. -/
def onFinalize {BlockNumber ShardNum Hash AuthorityId SealSignature : Type} [Codec BlockNumber]
    [Codec ShardNum] (st : Storage BlockNumber ShardNum) :
    List (DigestItem Hash AuthorityId SealSignature) :=
  (st.currentShardInfo.map fun shardInfo =>
      depositLog (.shardMarker shardInfo.num shardInfo.count : RawLog ShardNum BlockNumber)).toList ++
    (st.currentScaleOutPhase.map fun scaleOutPhase =>
      depositLog (.scaleOutPhase scaleOutPhase : RawLog ShardNum BlockNumber)).toList

end Sharding
end Srml
end Yeeroot

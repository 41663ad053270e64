import Yeeroot.Sharding.Digest
import Yeeroot.Sharding.Utils
import Yeeroot.Rust.Prelude

/-!
# The header checks of the PoW verifier

`PowVerifier::check_shard_info` (`core/consensus/pow/src/verifier.rs`) checks a header's
sharding digests against its parent's.  Its core is a transition relation on the scale-out
phases the two headers carry, `scaleOutPhaseOk`: which phase a block may be in given its
parent's, its number, the observation length `genesis_scale_out_observe_blocks`, and the
shard marker of the block.  Around it, `check_scale` compares the node's own shard
configuration with a `Committed` phase, and the header's shard marker must be the node's
shard as seen at the header's shard count (`get_original_shard_num`).

The node's exit triggers (`trigger_restart`, `trigger_stop`) and its log output are left out;
the checks return the errors the source returns.
-/

namespace Yeeroot
namespace Pow

open Scale Substrate Rust Sharding

/-- `ShardExtra`, the node's own shard configuration, without its exit trigger. -/
structure ShardExtra (AccountId : Type) where
  coinbase : Option AccountId
  shardNum : UInt16
  shardCount : UInt16
  scaleOut : Option ScaleOut

/-- `check_scale`: once a header is `Committed`, the node's own shard count must be the new
one; if not, its coinbase decides whether it is restarted (`Invalid arg shard info`) or
stopped (`Invalid arg coinbase`).  The block type is passed explicitly, as in the source's
`check_scale::<F::Block, AccountId>`. -/
def checkScale (BlockNumber : Type) {Hash AuthorityId SealSignature AccountId : Type}
    [Codec BlockNumber] [Codec AccountId] (digest : List (DigestItem Hash AuthorityId SealSignature))
    (shardExtra : ShardExtra AccountId) : Except Panic (Except String Unit) :=
  match (lastFilterMap asScaleOutPhase digest : Option (ScaleOutPhase BlockNumber UInt16)) with
  | some (.committed _ scaleShardCount) =>
    let targetShardNum :=
      match shardExtra.scaleOut with
      | some scaleOut => scaleOut.shardNum
      | none => shardExtra.shardNum
    if shardExtra.shardCount ≠ scaleShardCount then
      match shardExtra.coinbase with
      | some coinbase =>
        match shardNumFor coinbase scaleShardCount with
        | some coinbaseShardNum =>
          if targetShardNum ≠ coinbaseShardNum then .ok (.error "Invalid arg coinbase")
          else .ok (.error "Invalid arg shard info")
        | none => .error (Panic.expect "qed")
      | none => .ok (.error "Invalid arg shard info")
    else .ok (.ok ())
  | _ => .ok (.ok ())

section Check

variable {BlockNumber Hash AuthorityId SealSignature AccountId : Type}
  [Add BlockNumber] [LT BlockNumber] [DecidableLT BlockNumber]
  [DecidableEq BlockNumber] [Codec BlockNumber]

/-- The `ok` of `check_shard_info`: may a block numbered `number`, with shard marker
`(digestShardNum, digestShardCount)`, be in phase `child` when its parent is in `parent`? -/
def scaleOutPhaseOk (parent child : Option (ScaleOutPhase BlockNumber UInt16))
    (number observeBlocks : BlockNumber) (digestShardNum digestShardCount : UInt16) : Bool :=
  let shardOk (shardNum : UInt16) : Bool :=
    shardNum == digestShardNum || shardNum == digestShardNum + digestShardCount
  match parent, child with
  | some (.started pObserveUtil _), some (.started observeUtil shardNum) =>
    pObserveUtil == observeUtil && shardOk shardNum && decide (number < observeUtil)
  | some (.started pObserveUtil _), some (.nativeReady observeUtil shardNum) =>
    pObserveUtil == number && shardOk shardNum && number + observeBlocks == observeUtil
  | some (.started _ _), none => true
  | some (.started _ _), _ => false
  | some (.nativeReady pObserveUtil _), some (.nativeReady observeUtil shardNum) =>
    pObserveUtil == observeUtil && shardOk shardNum && decide (number < observeUtil)
  | some (.nativeReady pObserveUtil _), some (.ready observeUtil shardNum) =>
    pObserveUtil == number && shardOk shardNum && number + observeBlocks == observeUtil
  | some (.nativeReady _ _), none => true
  | some (.nativeReady _ _), _ => false
  | some (.ready pObserveUtil _), some (.ready observeUtil shardNum) =>
    pObserveUtil == observeUtil && shardOk shardNum && decide (number < observeUtil)
  | some (.ready pObserveUtil _), some (.committing shardCount) =>
    pObserveUtil == number && shardCount == digestShardCount * 2
  | some (.ready _ _), _ => false
  | some (.committing pShardCount), some (.committed shardNum shardCount) =>
    shardNum == digestShardNum && shardCount == pShardCount && digestShardCount == shardCount
  | some (.committing _), _ => false
  | some (.committed _ _), some (.started observeUtil shardNum) =>
    observeUtil == number + observeBlocks && shardOk shardNum
  | some (.committed _ _), none => true
  | some (.committed _ _), _ => false
  | none, some (.started observeUtil shardNum) =>
    number + observeBlocks == observeUtil && shardOk shardNum
  | none, some _ => false
  | none, none => true

/-- `check_shard_info`, given the parent header's digest. -/
def checkShardInfo [Codec AccountId] (parentDigest digest : List (DigestItem Hash AuthorityId SealSignature))
    (number observeBlocks : BlockNumber) (shardExtra : ShardExtra AccountId) :
    Except Panic (Except String Unit) :=
  match (lastFilterMap asShardingInfo digest : Option (UInt16 × UInt16)) with
  | none => .error (Panic.expect "shard info must exist")
  | some (digestShardNum, digestShardCount) =>
    if !scaleOutPhaseOk (lastFilterMap asScaleOutPhase parentDigest)
        (lastFilterMap asScaleOutPhase digest) number observeBlocks digestShardNum
        digestShardCount then
      .ok (.error "ScaleOutPhase checked failed.")
    else
      match checkScale BlockNumber digest shardExtra with
      | .error p => .error p
      | .ok (.error e) => .ok (.error e)
      | .ok (.ok ()) =>
        -- the marker read again is the one above; it must be the node's shard at that count
        match getOriginalShardNum shardExtra.shardNum shardExtra.shardCount digestShardCount with
        | .error e => .ok (.error e)
        | .ok originalShardNum =>
          if digestShardNum ≠ originalShardNum then .ok (.error "Invalid header shard info")
          else .ok (.ok ())

end Check

end Pow
end Yeeroot

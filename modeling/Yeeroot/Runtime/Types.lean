import Yeeroot.Primitives.Relay
import Yeeroot.Srml.Sharding

/-!
# The runtime's calls and storage

The three runtime modules that move funds are modelled: `balances`, `assets` and `relay`.
This file holds what they share.

* `Call`: their dispatchable calls, with the encoding `construct_runtime!` derives, the
  module's index among the runtime's modules with calls (`Balances` `4`, `Assets` `8`,
  `Relay` `9`) and the function's index within it, then the arguments.  The calls of the other
  modules (timestamp, consensus, pow, sharding, crfg, finality tracker, storage, sudo) are
  not modelled.
* `State`: the storage these modules read and write: the block number and nonces of
  `system`; the account enumeration of `indices`,
  read through `lookup_index`; the shard info of `sharding`; and the storage of `balances`
  and `assets`.  A storage map with a default is a function; `FreeBalance` and
  `ReservedBalance` are functions into `Option`, since their code asks whether a key exists.

Balances are the runtime's `u128`, as natural numbers with the source's overflow behaviour
(`Rust.U128`).  Accounts are generic, as in the source; the runtime's are 32 bytes.
-/

namespace Yeeroot
namespace Runtime

open Scale Substrate Primitives

/-! ## Calls -/

/-- The calls of `balances`, `assets` and `relay`. -/
inductive Call (AccountId : Type) where
  | balancesTransfer (dest : Address AccountId) (value : ℕ)
  | assetsIssue (name : Bytes) (total : ℕ) (decimals : UInt16)
  | assetsTransfer (shardCode : Bytes) (id : UInt32) (target : Address AccountId) (amount : ℕ)
  | relayTransfer (relayType : RelayTypes) (tx : Bytes) (number : UInt64) (hash parent : H256)
deriving DecidableEq

/-- The derived encoding of a call: module index, function index, arguments, with the
`#[compact]` ones in `Compact` form. -/
def Call.encode {AccountId : Type} [Codec AccountId] : Call AccountId → Bytes
  | .balancesTransfer dest value => [4, 0] ++ Codec.encode dest ++ encodeCompact value
  | .assetsIssue name total decimals =>
    [8, 0] ++ Codec.encode name ++ encodeCompact total ++ encodeCompact decimals.toNat
  | .assetsTransfer shardCode id target amount =>
    [8, 1] ++ Codec.encode shardCode ++ encodeCompact id.toNat ++ Codec.encode target ++
      encodeCompact amount
  | .relayTransfer relayType tx number hash parent =>
    [9, 0] ++ Codec.encode relayType ++ Codec.encode tx ++ encodeCompact number.toNat ++
      Codec.encode hash ++ Codec.encode parent

/-- The runtime's transactions: `UncheckedMortalCompactExtrinsic` over `Address`, the
64-byte sr25519 signature, and `Call`. -/
abbrev Extrinsic (AccountId : Type) := UncheckedExtrinsic (Address AccountId) (FixedBytes 64) (Call AccountId)

/-! ## Storage -/

/-- `balances::VestingSchedule`. -/
structure VestingSchedule where
  offset : ℕ
  perBlock : ℕ
deriving DecidableEq

/-- `VestingSchedule::locked_at`: the amount still locked at block `n`. -/
def VestingSchedule.lockedAt (v : VestingSchedule) (n : UInt64) : ℕ :=
  match Rust.U128.checkedMul n.toNat v.perBlock with
  | some x => max v.offset x - x
  | none => 0

/-- `WithdrawReason`. -/
inductive WithdrawReason where
  | transactionPayment
  | transfer
  | reserve
  | fee
deriving DecidableEq

/-- `ExistenceRequirement`. -/
inductive ExistenceRequirement where
  | keepAlive
  | allowDeath
deriving DecidableEq

/-- `balances::BalanceLock`, with its reasons as the list of reasons its bit set holds. -/
structure BalanceLock where
  id : FixedBytes 8
  amount : ℕ
  «until» : UInt64
  reasons : List WithdrawReason
deriving DecidableEq

/-- The storage the modelled modules use.  What only the executive touches (the relay set
and the extrinsic counters of `system`) is the executive's own, so that no module can change
it. -/
structure State (AccountId : Type) where
  /-- `system::Number`. -/
  blockNumber : UInt64
  /-- `system::AccountNonce`. -/
  accountNonce : AccountId → UInt64
  /-- `indices::lookup_index`. -/
  lookupIndex : UInt32 → Option AccountId
  /-- `sharding::CurrentShardInfo`. -/
  currentShardInfo : Option (Srml.Sharding.ShardInfo UInt16)
  totalIssuance : ℕ
  existentialDeposit : ℕ
  transferFee : ℕ
  transactionBaseFee : ℕ
  transactionByteFee : ℕ
  vesting : AccountId → Option VestingSchedule
  freeBalance : AccountId → Option ℕ
  reservedBalance : AccountId → Option ℕ
  locks : AccountId → List BalanceLock
  /-- `assets::Balances`, keyed by shard code, asset id and account. -/
  assetBalances : Bytes × UInt32 × AccountId → ℕ
  nextAssetId : UInt32
  assetsName : UInt32 → Bytes
  totalSupply : UInt32 → ℕ
  assetsDecimals : UInt32 → UInt16
  assetsIssuer : UInt32 → Option AccountId

end Runtime
end Yeeroot

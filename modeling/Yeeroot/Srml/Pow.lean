import Yeeroot.Runtime.Balances
import Yeeroot.Machine.Run

/-!
# The runtime's `pow` module: block rewards

`srml/yee-pow` pays the miners.  Every block carries the inherent `set_pow_info`, which
stores the block author's `PowInfo`: a coinbase and a `RewardCondition`.  `on_finalize`
pushes a `RewardPlan` for the block (its number, the coinbase, the block reward divided by
the shard count and the fees of the block) onto the stored list `RewardPlans`, and then pays
and drops, in a `retain` loop, every plan at least `BlockRewardLatency` blocks old.  A plan
is paid by `deposit_creating` on the shard its coinbase belongs to, and dropped unpaid on
the other shard of a scale-out; whom it pays is decided by the condition of the block that
pays it, not of the block that earned it: `Slash` pays that block's own coinbase.

`check_inherent` would reject a `Slash` condition and a coinbase of another shard, but it
reads only the inherent data of the checking node and never the call, and the import path
never calls it.

The state is the module's storage beside the runtime's (`Yeeroot.Runtime.State`), whose
balances `deposit_creating` credits; `on_new_account` is the hook of `Balances`.  The
genesis parameters of the difficulty rule and the chain id are storage items that no
modelled function reads and are left out.

The main results:

* `retainRewards_eq`: the loop keeps the plans not yet due, in order, and pays each due one
  once, to the coinbase the paying block's condition selects;
* `rewards_paid_once`: along a chain of blocks whose authors all choose `Normal` and a
  coinbase of the shard, the plan of block `b` stays stored until block `b + L` and is paid
  there, once, to its own coinbase;
* `checkInherent_of_own_data`: a node whose own inherent data is sound accepts every call.
-/

namespace Yeeroot
namespace Srml
namespace Pow

open Scale Substrate Rust Yeeroot.Runtime

/-! ## Data -/

/-- `RewardCondition`. -/
inductive RewardCondition where
  | normal
  | slash
deriving DecidableEq, Repr

/-- `PowInfo`: the block author's coinbase and reward condition. -/
structure PowInfo (AccountId : Type) where
  coinbase : AccountId
  rewardCondition : RewardCondition
deriving DecidableEq

/-- `RewardPlan`: the reward a block earned, to be paid `BlockRewardLatency` blocks later. -/
structure RewardPlan (AccountId : Type) where
  blockNumber : UInt64
  coinbase : AccountId
  blockReward : ℕ
  feeReward : ℕ
deriving DecidableEq

/-- The module's storage that the reward path reads and writes. -/
structure Storage (AccountId : Type) where
  blockReward : ℕ
  blockRewardLatency : UInt64
  rewardPlans : List (RewardPlan AccountId)
  totalFee : ℕ
  currentPowInfo : Option (PowInfo AccountId)

/-! ## Calls and hooks -/

section Module

variable {AccountId : Type}

/-- `on_initialize`: the fees of the block start from zero. -/
def onInitialize (pow : Storage AccountId) : Storage AccountId :=
  { pow with totalFee := 0 }

/-- `set_pow_info`: an inherent that stores the author's `PowInfo`. -/
def setPowInfo (origin : RawOrigin AccountId) (info : PowInfo AccountId) (pow : Storage AccountId) :
    Except String (Storage AccountId) := do
  ensureInherent origin
  return { pow with currentPowInfo := some info }

/-- `OnFeeWithdrawn::on_fee_withdrawn`: a fee paid in the block is added to its total. -/
def onFeeWithdrawn (amount : ℕ) (pow : Storage AccountId) : Storage AccountId :=
  { pow with totalFee := U128.wrappingAdd pow.totalFee amount }

/-- `get_curr_shard` and `get_shard_count` of the sharding module: both read
`CurrentShardInfo`, and panic before it is set. -/
def currentShardInfo (st : State AccountId) : Except Panic (Sharding.ShardInfo UInt16) :=
  match st.currentShardInfo with
  | some info => .ok info
  | none => .error (Panic.expect "shard info must be ready for runtime modules")

/-- The `reward_target` of `reward`: the plan's coinbase under `Normal`, the paying block's
coinbase under `Slash`. -/
def rewardTarget (rewardCondition : RewardCondition) (coinbase currentCoinbase : AccountId) :
    AccountId :=
  match rewardCondition with
  | .normal => coinbase
  | .slash => currentCoinbase

/-- `reward_block_number`: the newest block whose plan is due at block `blockNumber`. -/
def rewardBlockNumber (blockNumber blockRewardLatency : UInt64) : UInt64 :=
  if blockNumber > blockRewardLatency then blockNumber - blockRewardLatency else 0

/-- `new_reward_plan`: the block's reward, its share of the block reward and its fees. -/
def newRewardPlan (blockNumber : UInt64) (coinbase : AccountId) (pow : Storage AccountId)
    (shardCount : UInt16) : RewardPlan AccountId :=
  ⟨blockNumber, coinbase, pow.blockReward / shardCount.toNat, pow.totalFee⟩

variable [DecidableEq AccountId] [Codec AccountId]
  (onNewAccount : AccountId → (UInt32 → Option AccountId) → (UInt32 → Option AccountId))

/-- `reward`: on the shard of the plan's coinbase, `deposit_creating` of the block and fee
reward to the target the condition selects, with the `Reward` event; on another shard,
nothing.  The imbalance goes to `Reward = ()`, which drops it. -/
def reward (rewardPlan : RewardPlan AccountId) (currentCoinbase : AccountId)
    (rewardCondition : RewardCondition) (st : State AccountId) :
    Except Panic (State AccountId × List (RewardPlan AccountId)) :=
  match currentShardInfo st with
  | .error p => .error p
  | .ok shardInfo =>
    match Yeeroot.Sharding.shardNumFor rewardPlan.coinbase shardInfo.count with
    | none => .error (Panic.expect "qed")
    | some coinbaseShardNum =>
      -- when scaling out, only one of the two shards pays
      if coinbaseShardNum = shardInfo.num then
        let target := rewardTarget rewardCondition rewardPlan.coinbase currentCoinbase
        let (st, imbalance) := Balances.depositCreating onNewAccount target
          (U128.wrappingAdd rewardPlan.blockReward rewardPlan.feeReward) st
        .ok (imbalance.drop st, [{ rewardPlan with coinbase := target }])
      else .ok (st, [])

/-- The `retain` of `on_finalize`, in list order: a plan of a block up to
`rewardBlockNumber` is paid and dropped, any other is kept.  Returns the kept plans, the
state, and the `Reward` events. -/
def retainRewards (rewardBlockNumber : UInt64) (coinbase : AccountId)
    (rewardCondition : RewardCondition) :
    List (RewardPlan AccountId) → State AccountId →
      Except Panic (List (RewardPlan AccountId) × State AccountId × List (RewardPlan AccountId))
  | [], st => .ok ([], st, [])
  | x :: xs, st =>
    if x.blockNumber ≤ rewardBlockNumber then
      match reward onNewAccount x coinbase rewardCondition st with
      | .error p => .error p
      | .ok (st, events) =>
        (retainRewards rewardBlockNumber coinbase rewardCondition xs st).map
          fun (kept, st, more) => (kept, st, events ++ more)
    else
      (retainRewards rewardBlockNumber coinbase rewardCondition xs st).map
        fun (kept, st, events) => (x :: kept, st, events)

/-- `on_finalize`: with a stored `PowInfo`, the block's plan is pushed and every due plan
paid and dropped. -/
def onFinalize (blockNumber : UInt64) (pow : Storage AccountId) (st : State AccountId) :
    Except Panic (Storage AccountId × State AccountId × List (RewardPlan AccountId)) :=
  match pow.currentPowInfo with
  | none => .ok (pow, st, [])
  | some info =>
    match currentShardInfo st with
    | .error p => .error p
    | .ok shardInfo =>
      -- `block_reward / shard_count` on `u128`
      if shardInfo.count = 0 then .error Panic.divideByZero
      else
        (retainRewards onNewAccount (rewardBlockNumber blockNumber pow.blockRewardLatency)
            info.coinbase info.rewardCondition
            (pow.rewardPlans ++ [newRewardPlan blockNumber info.coinbase pow shardInfo.count]) st).map
          fun (kept, st, events) => ({ pow with rewardPlans := kept }, st, events)

/-- The module's part of block `blockNumber`: `on_initialize`, the `set_pow_info` inherent
of its author, the fees its extrinsics withdraw, `on_finalize`. -/
def executeBlock (blockNumber : UInt64) (info : PowInfo AccountId) (fees : List ℕ)
    (pow : Storage AccountId) (st : State AccountId) :
    Except Panic (Storage AccountId × State AccountId × List (RewardPlan AccountId)) :=
  let pow := onInitialize pow
  -- a failed extrinsic keeps the storage it found
  let pow := match setPowInfo .inherent info pow with
    | .ok pow => pow
    | .error _ => pow
  let pow := fees.foldl (fun pow amount => onFeeWithdrawn amount pow) pow
  onFinalize onNewAccount blockNumber pow st

end Module

/-! ## `check_inherent` -/

/-- `ProvideInherent::check_inherent`, given the inherent data of the node that checks: its
own `PowInfo` and its shard, each `none` where `get_data` finds nothing or cannot decode it.
The call itself is not read. -/
def checkInherent {AccountId : Type} [Codec AccountId] (_call : PowInfo AccountId)
    (powData : Option (PowInfo AccountId)) (shardData : Option (Sharding.ShardInfo UInt16)) :
    Except Panic (Except String Unit) :=
  match powData with
  | none => .ok (.ok ())
  | some d =>
    if d.rewardCondition ≠ .normal then .ok (.error "allow normal reward condition only")
    else
      match shardData with
      | none => .ok (.ok ())
      | some shard =>
        match Yeeroot.Sharding.shardNumFor d.coinbase shard.count with
        | none => .error Panic.unwrapNone
        | some shardNum =>
          if shardNum ≠ shard.num then .ok (.error "shard and coinbase not match") else .ok (.ok ())

/-- A node whose own inherent data is sound, `Normal` with a coinbase of its shard, accepts
every `set_pow_info` call, `Slash` and foreign coinbases included: the check reads the
node's data, not the call. -/
lemma checkInherent_of_own_data {AccountId : Type} [Codec AccountId] (call d : PowInfo AccountId)
    (shard : Sharding.ShardInfo UInt16) (hd : d.rewardCondition = .normal)
    (hshard : Yeeroot.Sharding.shardNumFor d.coinbase shard.count = some shard.num) :
    checkInherent call (some d) (some shard) = .ok (.ok ()) := by
  simp [checkInherent, hd, hshard]

/-! ## What a block pays -/

section Rewards

variable {AccountId : Type} [DecidableEq AccountId] [Codec AccountId]
  (onNewAccount : AccountId → (UInt32 → Option AccountId) → (UInt32 → Option AccountId))
  {st : State AccountId} {info : Sharding.ShardInfo UInt16}

omit [Codec AccountId] in
/-- `deposit_creating` changes balances, issuance and the account enumeration only. -/
lemma depositCreating_currentShardInfo (who : AccountId) (value : ℕ) (st : State AccountId) :
    (Balances.depositCreating onNewAccount who value st).1.currentShardInfo =
      st.currentShardInfo := by
  simp only [Balances.depositCreating, Balances.makeFreeBalanceBe, Balances.setFreeBalance,
    Balances.onFreeTooLow, Balances.reapAccount, Balances.newAccount,
    Balances.NegativeImbalance.drop]
  split_ifs <;> simp_all

omit [DecidableEq AccountId] [Codec AccountId] in
lemma currentShardInfo_of_some (hst : st.currentShardInfo = some info) :
    currentShardInfo st = .ok info := by
  simp [currentShardInfo, hst]

/-- On the shard of its coinbase a plan is paid once, to the target of the condition. -/
lemma reward_of_shard {x : RewardPlan AccountId} (currentCoinbase : AccountId)
    (rewardCondition : RewardCondition) (hst : st.currentShardInfo = some info)
    (hshard : Yeeroot.Sharding.shardNumFor x.coinbase info.count = some info.num) :
    ∃ st', reward onNewAccount x currentCoinbase rewardCondition st =
        .ok (st', [{ x with coinbase := rewardTarget rewardCondition x.coinbase currentCoinbase }]) ∧
      st'.currentShardInfo = some info := by
  simp only [reward, currentShardInfo_of_some hst, hshard]
  refine ⟨_, rfl, ?_⟩
  simp [Balances.PositiveImbalance.drop, depositCreating_currentShardInfo, hst]

/-- **The reward loop.**  When every due plan's coinbase is of this shard, the loop keeps
the plans not yet due, in order, and pays each due one once, in order, to the target that
the paying block's condition selects. -/
lemma retainRewards_eq {rewardBlockNumber : UInt64} (coinbase : AccountId)
    (rewardCondition : RewardCondition) (plans : List (RewardPlan AccountId))
    (hst : st.currentShardInfo = some info)
    (hdue : ∀ x ∈ plans, x.blockNumber ≤ rewardBlockNumber →
      Yeeroot.Sharding.shardNumFor x.coinbase info.count = some info.num) :
    ∃ st', retainRewards onNewAccount rewardBlockNumber coinbase rewardCondition plans st =
        .ok (plans.filter (fun x => rewardBlockNumber < x.blockNumber), st',
          (plans.filter (fun x => x.blockNumber ≤ rewardBlockNumber)).map
            fun x => { x with coinbase := rewardTarget rewardCondition x.coinbase coinbase }) ∧
      st'.currentShardInfo = some info := by
  induction plans generalizing st with
  | nil => exact ⟨st, rfl, hst⟩
  | cons x xs ih =>
    have hrest : ∀ y ∈ xs, y.blockNumber ≤ rewardBlockNumber →
        Yeeroot.Sharding.shardNumFor y.coinbase info.count = some info.num :=
      fun y hy => hdue y (List.mem_cons_of_mem x hy)
    by_cases hx : x.blockNumber ≤ rewardBlockNumber
    · -- a due plan is paid, then the loop goes on from the state after the payment
      obtain ⟨st₁, hreward, hst₁⟩ := reward_of_shard onNewAccount coinbase rewardCondition hst (hdue x (by simp) hx)
      obtain ⟨st₂, hloop, hst₂⟩ := ih hst₁ hrest
      refine ⟨st₂, ?_, hst₂⟩
      simp [retainRewards, hx, hreward, hloop, Except.map, UInt64.not_lt.mpr hx]
    · obtain ⟨st₂, hloop, hst₂⟩ := ih hst hrest
      refine ⟨st₂, ?_, hst₂⟩
      simp [retainRewards, hx, hloop, Except.map, UInt64.not_le.mp hx]

/-- `on_finalize` with the author's info stored: the block's plan is pushed, and the loop
runs over the stored plans and it. -/
lemma onFinalize_eq {blockNumber : UInt64} {pow : Storage AccountId} {powInfo : PowInfo AccountId}
    (hinfo : pow.currentPowInfo = some powInfo) (hst : st.currentShardInfo = some info)
    (hcount : info.count ≠ 0)
    (hdue : ∀ x ∈ pow.rewardPlans ++ [newRewardPlan blockNumber powInfo.coinbase pow info.count],
      x.blockNumber ≤ rewardBlockNumber blockNumber pow.blockRewardLatency →
      Yeeroot.Sharding.shardNumFor x.coinbase info.count = some info.num) :
    ∃ st', onFinalize onNewAccount blockNumber pow st =
        .ok ({ pow with
            rewardPlans := (pow.rewardPlans ++ [newRewardPlan blockNumber powInfo.coinbase pow info.count]).filter
              fun x => rewardBlockNumber blockNumber pow.blockRewardLatency < x.blockNumber },
          st', ((pow.rewardPlans ++ [newRewardPlan blockNumber powInfo.coinbase pow info.count]).filter
              fun x => x.blockNumber ≤ rewardBlockNumber blockNumber pow.blockRewardLatency).map
            fun x => { x with coinbase := rewardTarget powInfo.rewardCondition x.coinbase powInfo.coinbase }) ∧
      st'.currentShardInfo = some info := by
  obtain ⟨st', hloop, hst'⟩ :=
    retainRewards_eq onNewAccount powInfo.coinbase powInfo.rewardCondition _ hst hdue
  refine ⟨st', ?_, hst'⟩
  simp [onFinalize, hinfo, currentShardInfo_of_some hst, hcount, hloop, Except.map]

/-- Under `Slash` every plan a block pays goes to the block's own author, whoever earned
it. -/
lemma onFinalize_slash {blockNumber : UInt64} {pow : Storage AccountId} {powInfo : PowInfo AccountId}
    (hinfo : pow.currentPowInfo = some powInfo) (hslash : powInfo.rewardCondition = .slash)
    (hst : st.currentShardInfo = some info) (hcount : info.count ≠ 0)
    (hdue : ∀ x ∈ pow.rewardPlans ++ [newRewardPlan blockNumber powInfo.coinbase pow info.count],
      x.blockNumber ≤ rewardBlockNumber blockNumber pow.blockRewardLatency →
      Yeeroot.Sharding.shardNumFor x.coinbase info.count = some info.num) :
    ∃ pow' st' events, onFinalize onNewAccount blockNumber pow st = .ok (pow', st', events) ∧
      events.length = ((pow.rewardPlans ++ [newRewardPlan blockNumber powInfo.coinbase pow info.count]).filter
        fun x => x.blockNumber ≤ rewardBlockNumber blockNumber pow.blockRewardLatency).length ∧
      ∀ e ∈ events, e.coinbase = powInfo.coinbase := by
  obtain ⟨st', hfin, -⟩ := onFinalize_eq onNewAccount hinfo hst hcount hdue
  refine ⟨_, st', _, hfin, List.length_map _, ?_⟩
  intro e he
  obtain ⟨x, -, rfl⟩ := List.mem_map.mp he
  simp [rewardTarget, hslash]

omit [DecidableEq AccountId] [Codec AccountId] in
lemma foldl_onFeeWithdrawn (fees : List ℕ) (pow : Storage AccountId) :
    fees.foldl (fun pow amount => onFeeWithdrawn amount pow) pow =
      { pow with totalFee := fees.foldl U128.wrappingAdd pow.totalFee } := by
  induction fees generalizing pow with
  | nil => rfl
  | cons amount fees ih =>
    rw [List.foldl_cons, ih]
    rfl

/-- A block runs `on_finalize` on the storage with its author's info and its fees. -/
lemma executeBlock_eq (blockNumber : UInt64) (powInfo : PowInfo AccountId) (fees : List ℕ)
    (pow : Storage AccountId) (st : State AccountId) :
    executeBlock onNewAccount blockNumber powInfo fees pow st =
      onFinalize onNewAccount blockNumber
        { pow with totalFee := fees.foldl U128.wrappingAdd 0, currentPowInfo := some powInfo } st := by
  simp [executeBlock, setPowInfo, ensureInherent, onInitialize, foldl_onFeeWithdrawn, bind,
    Except.bind, pure, Except.pure]

end Rewards

/-! ## Rewards along a chain -/

/-- The node after a block: the module's storage, the runtime's, and the `Reward` events of
the block. -/
structure Node (AccountId : Type) where
  pow : Storage AccountId
  st : State AccountId
  events : List (RewardPlan AccountId)

section Chain

variable {AccountId : Type} [DecidableEq AccountId] [Codec AccountId]
  (onNewAccount : AccountId → (UInt32 → Option AccountId) → (UInt32 → Option AccountId))
  (infos : ℕ → PowInfo AccountId) (fees : ℕ → List ℕ)

/-- Block `b` of a chain whose author chose `infos b` and whose extrinsics paid `fees b`. -/
def chainStep (s : Except Panic (Node AccountId)) (b : ℕ) : Except Panic (Node AccountId) :=
  s.bind fun node =>
    (executeBlock onNewAccount (UInt64.ofNat b) (infos b) (fees b) node.pow node.st).map
      fun (pow, st, events) => ⟨pow, st, events⟩

/-- The chain after blocks `1, …, n`. -/
def chainRun (genesis : Node AccountId) (n : ℕ) : Except Panic (Node AccountId) :=
  Machine.run (chainStep onNewAccount infos fees) (.ok genesis) (fun k => k + 1) n

variable (blockReward : ℕ) (latency : UInt64) (info : Sharding.ShardInfo UInt16)

/-- The plan block `b` pushes. -/
def planOf (b : ℕ) : RewardPlan AccountId :=
  ⟨UInt64.ofNat b, (infos b).coinbase, blockReward / info.count.toNat, (fees b).foldl U128.wrappingAdd 0⟩

/-- The plans stored after block `n`: those of the blocks of the last `latency`. -/
def pendingPlans (n : ℕ) : List (RewardPlan AccountId) :=
  ((List.range' 1 n).filter fun b => n < b + latency.toNat).map
    (planOf infos fees blockReward info)

/-- The plans paid in block `n`: that of block `n - latency`. -/
def paidPlans (n : ℕ) : List (RewardPlan AccountId) :=
  ((List.range' 1 n).filter fun b => b + latency.toNat = n).map (planOf infos fees blockReward info)

/-- What the chain keeps after block `n`. -/
structure ChainInv (n : ℕ) (node : Node AccountId) : Prop where
  plans : node.pow.rewardPlans = pendingPlans infos fees blockReward latency info n
  events : node.events = paidPlans infos fees blockReward latency info n
  shard : node.st.currentShardInfo = some info
  reward : node.pow.blockReward = blockReward
  latency : node.pow.blockRewardLatency = latency

omit [DecidableEq AccountId] [Codec AccountId] in
/-- A plan of block `b` is due at block `m` exactly when `b + latency ≤ m`. -/
lemma ofNat_le_rewardBlockNumber {b m : ℕ} (hb : 1 ≤ b) (hbm : b ≤ m) (hm : m < 2 ^ 64) :
    UInt64.ofNat b ≤ rewardBlockNumber (UInt64.ofNat m) latency ↔ b + latency.toNat ≤ m := by
  have hsize : UInt64.size = 2 ^ 64 := rfl
  have hbn : (UInt64.ofNat b).toNat = b := UInt64.toNat_ofNat_of_lt' (by omega)
  have hmn : (UInt64.ofNat m).toNat = m := UInt64.toNat_ofNat_of_lt' (by omega)
  unfold rewardBlockNumber
  split_ifs with h
  · have hlt : latency.toNat < m := by simpa [UInt64.lt_iff_toNat_lt, hmn] using h
    rw [UInt64.le_iff_toNat_le, UInt64.toNat_sub_of_le _ _ (UInt64.le_of_lt h), hbn, hmn]
    omega
  · have hge : m ≤ latency.toNat := by simpa [UInt64.lt_iff_toNat_lt, hmn] using h
    rw [UInt64.le_iff_toNat_le, hbn]
    simp only [UInt64.toNat_zero]
    omega

omit [DecidableEq AccountId] [Codec AccountId] in
/-- The stored plans and the new one are those of the blocks up to `n + 1` not yet paid
after block `n`. -/
lemma pendingPlans_append (n : ℕ) :
    pendingPlans infos fees blockReward latency info n ++ [planOf infos fees blockReward info (n + 1)] =
      ((List.range' 1 (n + 1)).filter fun b => n < b + latency.toNat).map
        (planOf infos fees blockReward info) := by
  rw [List.range'_concat, List.filter_append, List.map_append, pendingPlans]
  rw [show 1 + 1 * n = n + 1 by omega, List.filter_singleton,
    decide_eq_true (by omega : n < n + 1 + latency.toNat)]
  rfl

omit [DecidableEq AccountId] [Codec AccountId] in
/-- The loop of block `n + 1` keeps the plans pending after it. -/
lemma filter_pendingPlans_kept (n : ℕ) (hn : n + 1 < 2 ^ 64) :
    (pendingPlans infos fees blockReward latency info n ++
        [planOf infos fees blockReward info (n + 1)]).filter
      (fun x => rewardBlockNumber (UInt64.ofNat (n + 1)) latency < x.blockNumber) =
      pendingPlans infos fees blockReward latency info (n + 1) := by
  rw [pendingPlans_append, List.filter_map, List.filter_filter, pendingPlans]
  congr 1
  apply List.filter_congr
  intro b hb
  obtain ⟨hb1, hb2⟩ : 1 ≤ b ∧ b < 1 + (n + 1) := List.mem_range'_1.mp hb
  have hdue := ofNat_le_rewardBlockNumber latency hb1 (by omega) hn
  simp only [Function.comp, planOf, ← UInt64.not_le, hdue, ← Bool.decide_and, decide_eq_decide]
  omega

omit [DecidableEq AccountId] [Codec AccountId] in
/-- The loop of block `n + 1` pays the plans of the blocks `latency` before it. -/
lemma filter_pendingPlans_paid (n : ℕ) (hn : n + 1 < 2 ^ 64) :
    (pendingPlans infos fees blockReward latency info n ++
        [planOf infos fees blockReward info (n + 1)]).filter
      (fun x => x.blockNumber ≤ rewardBlockNumber (UInt64.ofNat (n + 1)) latency) =
      paidPlans infos fees blockReward latency info (n + 1) := by
  rw [pendingPlans_append, List.filter_map, List.filter_filter, paidPlans]
  congr 1
  apply List.filter_congr
  intro b hb
  obtain ⟨hb1, hb2⟩ : 1 ≤ b ∧ b < 1 + (n + 1) := List.mem_range'_1.mp hb
  have hdue := ofNat_le_rewardBlockNumber latency hb1 (by omega) hn
  simp only [Function.comp, planOf, hdue, ← Bool.decide_and, decide_eq_decide]
  omega

omit [DecidableEq AccountId] [Codec AccountId] in
/-- Block `n` pays the plan of block `n - latency`, once. -/
lemma paidPlans_of_lt {n : ℕ} (h : latency.toNat < n) :
    paidPlans infos fees blockReward latency info n =
      [planOf infos fees blockReward info (n - latency.toNat)] := by
  have hfilter : (List.range' 1 n).filter (fun b => b + latency.toNat = n) =
      (List.range' 1 n).filter (fun b => b = n - latency.toNat) :=
    List.filter_congr fun b hb => by
      have := (List.mem_range'_1.mp hb).1
      simp only [decide_eq_decide]
      omega
  rw [paidPlans, hfilter, List.filter_eq,
    List.count_eq_one_of_mem List.nodup_range' (List.mem_range'_1.mpr (by omega))]
  rfl

omit [DecidableEq AccountId] [Codec AccountId] in
/-- The first `latency` blocks pay nothing. -/
lemma paidPlans_of_le {n : ℕ} (h : n ≤ latency.toNat) :
    paidPlans infos fees blockReward latency info n = [] := by
  rw [paidPlans, List.filter_eq_nil_iff.mpr, List.map_nil]
  intro b hb
  have := (List.mem_range'_1.mp hb).1
  simp only [decide_eq_true_eq]
  omega

/-- One block of a chain whose author chose `Normal` and whose plans all have coinbases of
the shard keeps the invariant. -/
lemma chainInv_step {n : ℕ} {node : Node AccountId} (hn : n + 1 < 2 ^ 64) (hcount : info.count ≠ 0)
    (hnormal : (infos (n + 1)).rewardCondition = .normal)
    (hshard : ∀ b, Yeeroot.Sharding.shardNumFor (infos b).coinbase info.count = some info.num)
    (hinv : ChainInv infos fees blockReward latency info n node) :
    ∃ node', chainStep onNewAccount infos fees (.ok node) (n + 1) = .ok node' ∧
      ChainInv infos fees blockReward latency info (n + 1) node' := by
  -- the storage `on_finalize` sees: the block's fees and its author's info
  let pow : Storage AccountId := { node.pow with
    totalFee := (fees (n + 1)).foldl U128.wrappingAdd 0, currentPowInfo := some (infos (n + 1)) }
  have hplan : newRewardPlan (UInt64.ofNat (n + 1)) (infos (n + 1)).coinbase pow info.count =
      planOf infos fees blockReward info (n + 1) := by
    simp [newRewardPlan, planOf, pow, hinv.reward]
  have hplans : pow.rewardPlans ++ [newRewardPlan (UInt64.ofNat (n + 1)) (infos (n + 1)).coinbase pow info.count] =
      pendingPlans infos fees blockReward latency info n ++ [planOf infos fees blockReward info (n + 1)] := by
    rw [hplan, ← hinv.plans]
  -- every stored plan is one of a block of the chain, so its coinbase is of the shard
  have hdue : ∀ x ∈ pow.rewardPlans ++
      [newRewardPlan (UInt64.ofNat (n + 1)) (infos (n + 1)).coinbase pow info.count],
      x.blockNumber ≤ rewardBlockNumber (UInt64.ofNat (n + 1)) pow.blockRewardLatency →
      Yeeroot.Sharding.shardNumFor x.coinbase info.count = some info.num := by
    intro x hx _
    rw [hplans, pendingPlans_append] at hx
    obtain ⟨b, -, rfl⟩ := List.mem_map.mp hx
    exact hshard b
  obtain ⟨st', hfin, hst'⟩ :=
    onFinalize_eq onNewAccount (show pow.currentPowInfo = some (infos (n + 1)) from rfl) hinv.shard
      hcount hdue
  -- under `Normal` the paid plans are paid to their own coinbase
  have htarget : ∀ x : RewardPlan AccountId,
      { x with coinbase := rewardTarget (infos (n + 1)).rewardCondition x.coinbase (infos (n + 1)).coinbase } =
        x := by
    intro x
    simp [rewardTarget, hnormal]
  rw [hplans, show pow.blockRewardLatency = latency from hinv.latency,
    filter_pendingPlans_kept infos fees blockReward latency info n hn,
    filter_pendingPlans_paid infos fees blockReward latency info n hn] at hfin
  simp only [htarget, List.map_id'] at hfin
  refine ⟨⟨{ pow with rewardPlans := pendingPlans infos fees blockReward latency info (n + 1) }, st',
    paidPlans infos fees blockReward latency info (n + 1)⟩, ?_, ⟨rfl, rfl, hst', hinv.reward, hinv.latency⟩⟩
  simp only [chainStep, Except.bind, executeBlock_eq]
  rw [hfin]
  simp [Except.map, pow, hinv.latency]

/-- **Each reward is paid once, `latency` blocks late, to its own coinbase.**  Along a chain
of blocks `1, …, N` (numbers below `2 ^ 64`) whose authors all choose `Normal` and a coinbase
of the shard, which is what `check_inherent` asks, started with no plans: after block `n` the
stored plans are those of the last `latency` blocks, and block `n` pays, once, the plan of
block `n - latency` when there is one (`paidPlans_of_lt`, `paidPlans_of_le`). -/
theorem rewards_paid_once (genesis : Node AccountId) (N : ℕ) (hN : N < 2 ^ 64)
    (hcount : info.count ≠ 0) (hnormal : ∀ b, (infos b).rewardCondition = .normal)
    (hshard : ∀ b, Yeeroot.Sharding.shardNumFor (infos b).coinbase info.count = some info.num)
    (hgenesis : ChainInv infos fees blockReward latency info 0 genesis) :
    ∀ n ≤ N, ∃ node, chainRun onNewAccount infos fees genesis n = .ok node ∧
      ChainInv infos fees blockReward latency info n node := by
  -- the invariant, for the blocks of the chain
  have hrun := Machine.run_invariant (chainStep onNewAccount infos fees) (.ok genesis) (fun k => k + 1)
    (fun n s => n ≤ N → ∃ node, s = .ok node ∧ ChainInv infos fees blockReward latency info n node)
    (fun _ _ _ => True) (fun _ => ⟨genesis, rfl, hgenesis⟩) ?step (fun _ => trivial)
  · exact fun n hn => hrun n hn
  case step =>
    intro n s hinv _ hn
    obtain ⟨node, rfl, hnode⟩ := hinv (by omega)
    exact chainInv_step onNewAccount infos fees blockReward latency info (by omega) hcount
      (hnormal (n + 1)) hshard hnode

end Chain

/-! ## A block that takes an earlier block's reward -/

/-- The runtime storage of shard `0` of `1` with no accounts and no existential deposit. -/
def rewardState : State UInt16 where
  blockNumber := 0
  accountNonce := fun _ => 0
  lookupIndex := fun _ => none
  currentShardInfo := some ⟨0, 1, none⟩
  totalIssuance := 0
  existentialDeposit := 0
  transferFee := 0
  transactionBaseFee := 0
  transactionByteFee := 0
  vesting := fun _ => none
  freeBalance := fun _ => none
  reservedBalance := fun _ => none
  locks := fun _ => []
  assetBalances := fun _ => 0
  nextAssetId := 0
  assetsName := fun _ => []
  totalSupply := fun _ => 0
  assetsDecimals := fun _ => 0
  assetsIssuer := fun _ => none

/-- The chain at genesis: a block reward of `100`, paid one block late, nothing stored. -/
def rewardGenesis : Node UInt16 := ⟨⟨100, 1, [], 0, none⟩, rewardState, []⟩

/-- Block `b` is mined by account `b`; the author of block `2` chooses `Slash`. -/
def slashInfos (b : ℕ) : PowInfo UInt16 :=
  ⟨UInt16.ofNat b, if b = 2 then .slash else .normal⟩

/-- Block `1` earns a plan for its miner `1`; block `2`, whose author chooses `Slash`, pays
that plan to its own miner `2` and drops it, so `1` is never paid. -/
theorem slash_author_takes_earlier_reward :
    (chainRun (fun _ lookup => lookup) slashInfos (fun _ => []) rewardGenesis 1).map
        (fun node => node.pow.rewardPlans) = .ok [⟨1, 1, 100, 0⟩] ∧
      (chainRun (fun _ lookup => lookup) slashInfos (fun _ => []) rewardGenesis 2).map
        (fun node => (node.events, node.pow.rewardPlans, Balances.freeBalance node.st 2,
          Balances.freeBalance node.st 1)) =
        .ok ([⟨1, 2, 100, 0⟩], [⟨2, 2, 100, 0⟩], 100, 0) := by
  constructor <;> decide +kernel

end Pow
end Srml
end Yeeroot

import Yeeroot.Runtime.Types
import Yeeroot.Sharding.Utils

/-!
# The `assets` module

`srml/yee-assets`: fungible assets.  An asset is issued with its whole supply on the issuer's
account, under the issuer's *shard code* (the last two bytes of the issuer's account) and a
fresh id; balances are kept per shard code, id and account.  A transfer to an account of
another shard is debited here and paid out there by `relay_transfer`, as for the native
currency.

As in `Balances`, a call keeps the writes it made before returning `Err`: `transfer` debits
the sender before it looks the target up, so a target that does not resolve leaves the
sender debited and nobody credited.  Events are not modelled.
-/

namespace Yeeroot
namespace Assets

open Scale Substrate Primitives Rust Yeeroot.Runtime

/-- `MAX_NAME_SIZE`. -/
def maxNameSize : ℕ := 16

section Module

variable {AccountId : Type} [DecidableEq AccountId] [Codec AccountId]

/-- `issue_asset`: the next id, the issuer's shard code, and the whole supply on the
issuer's account.  (The source slices the issuer's bytes from `len - SHARD_CODE_SIZE`; the
runtime's accounts have 32 of them.) -/
def issueAsset (origin : AccountId) (name : Bytes) (total : ℕ) (decimals : UInt16)
    (st : State AccountId) : State AccountId :=
  let id := st.nextAssetId
  let st := { st with nextAssetId := id + 1 }
  let issuer := Codec.encode origin
  let shardCode := issuer.drop (issuer.length - shardCodeSize)
  { st with
    assetBalances := Function.update st.assetBalances (shardCode, id, origin) total
    totalSupply := Function.update st.totalSupply id total
    assetsName := Function.update st.assetsName id name
    assetsDecimals := Function.update st.assetsDecimals id decimals
    assetsIssuer := Function.update st.assetsIssuer id (some origin) }

/-- The call `issue(name, total, decimals)`. -/
def issue (origin : RawOrigin AccountId) (name : Bytes) (total : ℕ) (decimals : UInt16)
    (st : State AccountId) : State AccountId × Except String Unit :=
  match ensureSigned origin with
  | .error e => (st, .error e)
  | .ok origin =>
    if maxNameSize < name.length then (st, .error "Asset's name's length overflow.")
    else (issueAsset origin name total decimals st, .ok ())

/-- The call `transfer(shard_code, id, target, amount)`: the sender is debited, then the
target is looked up; a target of this shard is credited, one of another shard is paid out
there by a relay. -/
def transfer (origin : RawOrigin AccountId) (shardCode : Bytes) (id : UInt32)
    (target : Address AccountId) (amount : ℕ) (st : State AccountId) :
    Except Panic (State AccountId × Except String Unit) :=
  match ensureSigned origin with
  | .error e => .ok (st, .error e)
  | .ok origin =>
    let originAccount := (shardCode, id, origin)
    let originBalance := st.assetBalances originAccount
    if amount = 0 then .ok (st, .error "transfer amount should be non-zero")
    else if originBalance < amount then
      .ok (st, .error "origin account balance must be greater than or equal to the transfer amount")
    else
      let st := { st with
        assetBalances := Function.update st.assetBalances originAccount (originBalance - amount) }
      match target.lookup st.lookupIndex with
      | .error e => .ok (st, .error e)
      | .ok target =>
        match st.currentShardInfo with
        | none => .error (Panic.expect "shard info must be ready for runtime modules")
        | some info =>
          match Sharding.shardNumFor target info.count with
          | none => .error (Panic.expect "can't get target shard num")
          | some dn =>
            if info.num = dn then
              let toAccount := (shardCode, id, target)
              match U128.checkedAdd (st.assetBalances toAccount) amount with
              | none => .ok (st, .error "destination balance too high to receive value")
              | some b =>
                .ok ({ st with assetBalances := Function.update st.assetBalances toAccount b }, .ok ())
            else .ok (st, .ok ())

variable [Inhabited AccountId]

/-- `relay_transfer`: the relayed transfer is read with the assets layout and its amount
credited to its destination under its shard code and id. -/
def relayTransfer (input : Bytes) (st : State AccountId) : State AccountId × Except String Unit :=
  match (OriginExtrinsic.decode .assets input : Option (OriginExtrinsic AccountId U128)) with
  | some tx =>
    match tx.id with
    | none => (st, .error "invalid asset id")
    | some assetId =>
      let toAccount := (tx.shard, assetId, tx.dest)
      match U128.checkedAdd (st.assetBalances toAccount) tx.amount.val with
      | none => (st, .error "destination balance too high to receive value")
      | some b => ({ st with assetBalances := Function.update st.assetBalances toAccount b }, .ok ())
  | none => (st, .error "transfer is invalid.")

end Module

/-! ## A failed transfer keeps its debit -/

section Debit

variable {AccountId : Type} [DecidableEq AccountId] [Codec AccountId]

/-- A transfer whose target does not resolve fails, with the sender's debit kept. -/
lemma transfer_of_lookup_error {origin : AccountId} {shardCode : Bytes} {id : UInt32}
    {target : Address AccountId} {amount : ℕ} {st : State AccountId} {e : String}
    (hpos : amount ≠ 0) (hbal : amount ≤ st.assetBalances (shardCode, id, origin))
    (hlookup : target.lookup st.lookupIndex = .error e) :
    transfer (.signed origin) shardCode id target amount st =
      .ok ({ st with
        assetBalances := Function.update st.assetBalances (shardCode, id, origin)
          (st.assetBalances (shardCode, id, origin) - amount) }, .error e) := by
  simp only [transfer, ensureSigned, if_neg hpos, if_neg (not_lt.mpr hbal)]
  rw [hlookup]

end Debit

/-- Account `1` holds the whole supply of 1000 of asset 0 under the shard code `[0, 1]`; no
index resolves. -/
def debitSample : State UInt8 where
  blockNumber := 1
  accountNonce := fun _ => 0
  lookupIndex := fun _ => none
  currentShardInfo := some ⟨0, 1, none⟩
  totalIssuance := 0
  existentialDeposit := 0
  transferFee := 0
  transactionBaseFee := 0
  transactionByteFee := 0
  vesting := fun _ => none
  freeBalance := fun _ => none
  reservedBalance := fun _ => none
  locks := fun _ => []
  assetBalances := fun k => if k = ([0, 1], 0, 1) then 1000 else 0
  nextAssetId := 1
  assetsName := fun _ => []
  totalSupply := fun i => if i = 0 then 1000 else 0
  assetsDecimals := fun _ => 0
  assetsIssuer := fun i => if i = 0 then some 1 else none

theorem failed_asset_transfer_keeps_debit :
    ∃ st, transfer (.signed (1 : UInt8)) [0, 1] 0 (.index 7) 50 debitSample =
        .ok (st, .error "invalid account index") ∧
      debitSample.assetBalances ([0, 1], 0, 1) = 1000 ∧ st.assetBalances ([0, 1], 0, 1) = 950 ∧
      st.totalSupply 0 = 1000 := by
  refine ⟨_, transfer_of_lookup_error (by decide) (by decide) rfl, rfl, ?_, rfl⟩
  decide

end Assets
end Yeeroot

import Yeeroot.Runtime.Executive

/-!
# Routing of cross-shard transfers

A transfer to an account of another shard is classified four times, by four pieces of code
that share none of their reading of it:

* the runtime (`Currency::transfer`, `assets::transfer`) looks the destination address up, and
  debits without crediting when the account's shard is not the current one (`runtimeRoute`);
* the block producer (`gen_extrinsic_proof`) files the hash of a signed, executed transfer
  under the shard of its destination *address*, encoded (`producerRoute`);
* the block importer (`execute_extrinsics_with_book_keeping_with_proof`) reads the destination
  out of the transaction's bytes with `OriginExtrinsic::decode`, which expects a type byte and
  a 32-byte account, and files the hash under that account's shard (`importerRoute`);
* the relay sender (`process_relay_extrinsic`) sends an unsigned `Relay::transfer` of the
  transaction's bytes to the shard of its destination address (`relaySend`).

The producer's filing becomes the block's relay proof; the importer rebuilds it from its own
filing and asserts that the two roots agree.  The Merkle trees are those of `merkle_light`
and are not modelled: a filing is the list of hashes of each shard, in body order.

The importer reads accounts as `H256`, which is the runtime's 32-byte account; its section is
stated at that type.  The producer and the relay sender decode the block's bytes into the
runtime's `UncheckedExtrinsic` and match its call; they are given the decoded transaction.
-/

namespace Yeeroot
namespace Routing

open Scale Substrate Primitives Rust Yeeroot.Runtime Sharding Executive

/-! ## One transaction -/

section Routes

variable {AccountId : Type} [Codec AccountId]

/-- The destination address of a transfer call, and the relay type that pays it out, as
`gen_extrinsic_proof` and `process_relay_extrinsic` match the call. -/
def transferDest : Call AccountId → Option (Address AccountId × RelayTypes)
  | .balancesTransfer dest _ => some (dest, .balance)
  | .assetsTransfer _ _ dest _ => some (dest, .assets)
  | _ => none

/-- A shard number, kept when it is not the current shard. -/
def foreignShard (cur : UInt16) (num : Option UInt16) : Option UInt16 :=
  num.bind fun n => if n ≠ cur then some n else none

/-- The runtime's verdict on a call: the shard of the looked-up destination of a transfer,
when it is not the current one.  This is the branch `Currency::transfer` and
`assets::transfer` take to debit without crediting. -/
def runtimeRoute (st : Runtime.State AccountId) (call : Call AccountId) : Option UInt16 :=
  (transferDest call).bind fun (dest, _) =>
    match dest.lookup st.lookupIndex, st.currentShardInfo with
    | .ok account, some info => foreignShard info.num (shardNumFor account info.count)
    | _, _ => none

/-- `gen_extrinsic_proof` on one transaction and its execution flag: a signed, executed
transfer is filed under the shard of its destination address. -/
def producerRoute (shardNum shardCount : UInt16) (uxt : Extrinsic AccountId) (executed : Bool) :
    Option UInt16 :=
  if uxt.isSigned then
    (transferDest uxt.function).bind fun (dest, _) =>
      (shardNumFor dest shardCount).bind fun num =>
        if num ≠ shardNum ∧ executed = true then some num else none
  else none

/-- `process_relay_extrinsic` on the transaction `ex`, decoded from the bytes `ec` of block
`number` with hash `hash` and parent `parent`: the shard of the destination address, and the
unsigned relay sent there. -/
def relaySend (tc cs : UInt16) (ec : Bytes) (ex : Extrinsic AccountId) (number : UInt64)
    (hash parent : H256) : Option (UInt16 × Extrinsic AccountId) :=
  match ex.signature with
  | none => none
  | some _ =>
    (transferDest ex.function).bind fun (dest, relayType) =>
      (shardNumFor dest tc).bind fun ds =>
        if cs = ds then none else some (ds, relayExtrinsic relayType ec number hash parent)

end Routes

/-- `execute_extrinsics_with_book_keeping_with_proof` on one transaction with bytes `bytes`
and its outcome: a signed one that succeeded is read with `OriginExtrinsic::decode_type` and
`OriginExtrinsic::decode`, and filed under its destination account's shard. -/
def importerRoute (curShard shardCount : UInt16) (bytes : Bytes) (isSigned success : Bool) :
    Except Panic (Option UInt16) :=
  if success ∧ isSigned then
    (OriginExtrinsic.decodeType H256 bytes).map fun exType =>
      exType.bind fun exType =>
        (OriginExtrinsic.decode exType bytes : Option (OriginExtrinsic H256 U128)).bind fun ex =>
          foreignShard curShard (shardNumFor ex.dest shardCount)
  else .ok none

/-! ## A block -/

/-- One hash pushed onto its shard's list, as `extrinsic_shard.entry(num)` with `push` does. -/
def fileHash (filing : UInt16 → List H256) : Option UInt16 → H256 → UInt16 → List H256
  | none, _ => filing
  | some num, hash => Function.update filing num (filing num ++ [hash])

section Producer

variable {AccountId : Type} [Codec AccountId] (blake2 : Bytes → H256)

/-- The loop of `gen_extrinsic_proof` over the body, with one execution flag for each
transaction. -/
def producerFiling (shardNum shardCount : UInt16) :
    List (Extrinsic AccountId × Bool) → (UInt16 → List H256) → UInt16 → List H256
  | [], filing => filing
  | (uxt, executed) :: body, filing =>
    producerFiling shardNum shardCount body
      (fileHash filing (producerRoute shardNum shardCount uxt executed)
        (blake2 (uxt.encode Call.encode)))

end Producer

section Importer

variable (env : Env H256)

/-- `apply_extrinsic_no_note_with_proof`: a transaction the executive rejects panics
the import. -/
def applyNoNoteWithProof (uxt : Extrinsic H256) (st : Executive.State H256) :
    Except Panic (Executive.State H256 × ApplyOutcome) :=
  match applyExtrinsic env uxt st with
  | .error p => .error p
  | .ok (st, .ok outcome) => .ok (st, outcome)
  | .ok (_, .error .cantPay) => .error ⟨"All extrinsics should have sender able to pay their fees"⟩
  | .ok (_, .error (.badSignature _)) => .error ⟨"All extrinsics should be properly signed"⟩
  | .ok (_, .error .stale) => .error ⟨"All extrinsics should have the correct nonce"⟩
  | .ok (_, .error .future) => .error ⟨"All extrinsics should have the correct nonce"⟩
  | .ok (_, .error .fullBlock) => .error ⟨"Extrinsics should not exceed block limit"⟩

/-- The loop of `execute_extrinsics_with_book_keeping_with_proof`: each transaction is
applied, and the hash of each signed one that succeeded is filed by `importerRoute`. -/
def executeWithProof (curShard shardCount : UInt16) :
    Executive.State H256 → List (Extrinsic H256) → (UInt16 → List H256) →
      Except Panic (Executive.State H256 × (UInt16 → List H256))
  | st, [], filing => .ok (st, filing)
  | st, tx :: txs, filing =>
    let bytes := tx.encode Call.encode
    match applyNoNoteWithProof env tx st with
    | .error p => .error p
    | .ok (st, outcome) =>
      match importerRoute curShard shardCount bytes tx.isSigned (decide (outcome = .success)) with
      | .error p => .error p
      | .ok num =>
        executeWithProof curShard shardCount st txs (fileHash filing num (env.blake2 bytes))

end Importer

/-! ## An index address

The runtime resolves an `Address::Index` through `indices`; the producer and the relay sender
take the shard of the address's own encoding, and the importer cannot read it as an account.
On a shard `0` of four, `ferdie` sends 100 to the index `0x100` that `indices` maps to `charlie`
of shard 2. -/

/-- The accounts: `ferdie` of shard 0 and `charlie` of shard 2, at four shards; `charlie` is
the executive's `bob`. -/
def ferdie : H256 := ⟨List.replicate 32 4, List.length_replicate⟩

def charlie : H256 := bob

/-- An executive whose signature check accepts every signature. -/
def routingEnv : Env H256 := ⟨fun _ => default, fun _ _ _ _ _ => true, fun _ l => l⟩

/-- Shard 0 of four, no fees, `ferdie` holding 1000, and the index `0x100` naming `charlie`. -/
def routingState : Executive.State H256 where
  relayExtrinsic := fun _ => 0
  allExtrinsicsLen := 0
  extrinsicIndex := 0
  runtime :=
    { blockNumber := 1, accountNonce := fun _ => 0,
      lookupIndex := fun i => if i = 0x100 then some charlie else none,
      currentShardInfo := some ⟨0, 4, none⟩, totalIssuance := 1000, existentialDeposit := 0,
      transferFee := 0, transactionBaseFee := 0, transactionByteFee := 0,
      vesting := fun _ => none, freeBalance := fun a => if a = ferdie then some 1000 else none,
      reservedBalance := fun _ => none, locks := fun _ => [], assetBalances := fun _ => 0,
      nextAssetId := 0, assetsName := fun _ => [], totalSupply := fun _ => 0,
      assetsDecimals := fun _ => 0, assetsIssuer := fun _ => none }

/-- `ferdie`'s signed `Balances::transfer` of 100 to the index `0x100`. -/
def indexTransfer : Extrinsic H256 :=
  ⟨some (.id ferdie, default, 0, .immortal), .balancesTransfer (.index 0x100) 100⟩

theorem transfer_routes_disagree_on_index_address :
    Succeeds routingEnv routingState indexTransfer ∧
      Balances.freeBalance (push routingEnv routingState indexTransfer).runtime ferdie = 900 ∧
      Balances.freeBalance (push routingEnv routingState indexTransfer).runtime charlie = 0 ∧
      runtimeRoute routingState.runtime indexTransfer.function = some 2 ∧
      producerRoute 0 4 indexTransfer true = some 1 ∧
      importerRoute 0 4 (indexTransfer.encode Call.encode) indexTransfer.isSigned true = .ok none ∧
      (relaySend 4 0 (indexTransfer.encode Call.encode) indexTransfer 1 default default).map
        Prod.fst = some 1 := by
  refine ⟨?_, ?_, ?_, ?_, ?_, ?_, ?_⟩ <;> decide +kernel

/-! ## A relay of the wrong type

The relay type of an unsigned `Relay::transfer` is the relayer's choice, and nothing compares
it with the module of the origin.  `ferdie`, of shard 0, sends 50 of her asset to `dave` of
shard 1; the importer files the transaction for shard 1 and the relay sender sends an
`Assets` relay there.  The same origin relayed as `Balance` is read with the balances layout,
and pays native currency to an account made of the shard code, the asset id and `dave`'s
first bytes. -/

/-- The destination `dave`, of shard 1. -/
def dave : H256 := ⟨List.replicate 32 0x45, List.length_replicate⟩

/-- The account the balances layout reads out of `ferdie`'s asset transfer. -/
def misread : H256 := ⟨[4, 4, 0, 0xff] ++ List.replicate 28 0x45, rfl⟩

/-- Shard 0 of four, where `ferdie` holds 1000 of asset 0 under her shard code `[4, 4]`. -/
def assetSource : Executive.State H256 :=
  { routingState with
    runtime := { routingState.runtime with
      assetBalances := fun k => if k = ([4, 4], 0, ferdie) then 1000 else 0 } }

/-- `ferdie`'s signed `Assets::transfer` of 50 of asset 0 to `dave`. -/
def assetTransfer : Extrinsic H256 :=
  ⟨some (.id ferdie, default, 0, .immortal), .assetsTransfer [4, 4] 0 (.id dave) 50⟩

/-- Shard 1 of four, empty. -/
def assetDestination : Executive.State H256 :=
  { routingState with
    runtime := { routingState.runtime with
      currentShardInfo := some ⟨1, 4, none⟩, totalIssuance := 0, freeBalance := fun _ => none,
      lookupIndex := fun _ => none } }

/-- The relay of `ferdie`'s transfer, with the relay type `Balance`. -/
def balanceRelay : Extrinsic H256 :=
  relayExtrinsic .balance (assetTransfer.encode Call.encode) 1 default default

theorem relay_type_mismatch_credits_native :
    Succeeds routingEnv assetSource assetTransfer ∧
      (push routingEnv assetSource assetTransfer).runtime.assetBalances ([4, 4], 0, ferdie) = 950 ∧
      importerRoute 0 4 (assetTransfer.encode Call.encode) true true = .ok (some 1) ∧
      (relaySend 4 0 (assetTransfer.encode Call.encode) assetTransfer 1 default default).map
        Prod.fst = some 1 ∧
      OriginExtrinsic.decodeType H256 (assetTransfer.encode Call.encode) = .ok (some .assets) ∧
      Succeeds routingEnv assetDestination balanceRelay ∧
      Balances.freeBalance (push routingEnv assetDestination balanceRelay).runtime misread = 4433 ∧
      Balances.freeBalance (push routingEnv assetDestination balanceRelay).runtime dave = 0 ∧
      (push routingEnv assetDestination balanceRelay).runtime.assetBalances ([4, 4], 0, dave) = 0 := by
  refine ⟨?_, ?_, ?_, ?_, ?_, ?_, ?_, ?_, ?_⟩ <;> decide +kernel

/-! ## What the relay sender sends

The unsigned `Relay::transfer` that `process_relay_extrinsic` sends is recognised by
`RelayParams::decode`, which gives back every argument and keys the relay by the hash of its
origin. -/

section Sender

variable {AccountId : Type} [Codec AccountId]

theorem relay_params_decode_inverts_relay_transfer (env : Env AccountId) (relayType : RelayTypes)
    (ec : Bytes) (number : UInt64) (blockHash parentHash : H256) (hec : 66 ≤ ec.length)
    (hfit : ((relayExtrinsic relayType ec number blockHash parentHash : Extrinsic AccountId).payload
      Call.encode).length < 2 ^ 32) :
    ∃ p, RelayParams.decode env.blake2
        ((relayExtrinsic relayType ec number blockHash parentHash : Extrinsic AccountId).encode
          Call.encode) = some p ∧
      p.number = number ∧ p.blockHash = blockHash ∧ p.parentHash = parentHash ∧
      p.relayType = relayType ∧ p.origin = ec ∧ p.hash = env.blake2 ec :=
  ⟨_, relayParams_decode_relayExtrinsic env relayType ec number blockHash parentHash hec hfit,
    rfl, rfl, rfl, rfl, rfl, rfl⟩

end Sender

/-- The relay of 66 zero bytes as a balances transfer of block 1. -/
theorem relay_params_decode_inverts_relay_transfer_zero_origin :
    66 ≤ (List.replicate 66 (0 : UInt8)).length ∧
      ((relayExtrinsic .balance (List.replicate 66 0) 1 default default : Extrinsic H256).payload
        Call.encode).length < 2 ^ 32 ∧
      ∃ p, RelayParams.decode routingEnv.blake2
          ((relayExtrinsic .balance (List.replicate 66 0) 1 default default : Extrinsic H256).encode
            Call.encode) = some p ∧
        p.number = 1 ∧ p.blockHash = default ∧ p.parentHash = default ∧
        p.relayType = .balance ∧ p.origin = List.replicate 66 0 ∧
        p.hash = routingEnv.blake2 (List.replicate 66 0) := by
  have hec : 66 ≤ (List.replicate 66 (0 : UInt8)).length := by simp
  have hfit : ((relayExtrinsic .balance (List.replicate 66 0) 1 default default :
      Extrinsic H256).payload Call.encode).length < 2 ^ 32 := by decide
  exact ⟨hec, hfit, relay_params_decode_inverts_relay_transfer routingEnv .balance _ 1 default default
    hec hfit⟩

/-! ## A signer given by its index

The runtime looks a signer's `Address::Index` up as it looks a destination up, but
`OriginExtrinsic::decode_type` and `OriginExtrinsic::decode` read the signer as a type byte and
a 32-byte account.  On shard 0 of four, where `indices` maps `5` to `ferdie`, `ferdie` signs a
`Balances::transfer` of 100 to `charlie` of shard 2 with the signer `Address::Index(5)`. -/

/-- Shard 0 of four, `ferdie` holding 1000 under the index `5`. -/
def indexSignerState : Executive.State H256 :=
  { routingState with
    runtime := { routingState.runtime with
      lookupIndex := fun i => if i = 5 then some ferdie else none } }

/-- `ferdie`'s `Balances::transfer` of 100 to `charlie`, signed with the index `5`. -/
def indexSigned : Extrinsic H256 :=
  ⟨some (.index 5, default, 0, .immortal), .balancesTransfer (.id charlie) 100⟩

theorem origin_reader_misreads_index_signer :
    Succeeds routingEnv indexSignerState indexSigned ∧
      OriginExtrinsic.decodeType H256 (indexSigned.encode Call.encode) = .ok none ∧
      (OriginExtrinsic.decode .balance (indexSigned.encode Call.encode) :
        Option (OriginExtrinsic H256 U128)) = none ∧
      producerRoute 0 4 indexSigned true = some 2 ∧
      importerRoute 0 4 (indexSigned.encode Call.encode) indexSigned.isSigned true = .ok none := by
  refine ⟨?_, ?_, ?_, ?_, ?_⟩ <;> decide +kernel

/-! ## Issuance after a relayed credit

`relay_transfer` credits the destination without raising the total issuance, so on the
destination shard the balances can exceed the issuance.  Burning them then saturates at zero
(`Drop for NegativeImbalance`), and the difference between issuance and balances no longer
records what was relayed in.  On shard 1 of four, empty, with a base fee of 100, `dave`
receives `ferdie`'s 100 by relay and spends it on the fee of a transfer to himself. -/

/-- Shard 1 of four, with no issuance and no accounts, and a transaction base fee of 100. -/
def feeDestination : Executive.State H256 :=
  { assetDestination with
    runtime := { assetDestination.runtime with transactionBaseFee := 100 } }

/-- The relay of `ferdie`'s signed `Balances::transfer` of 100 to `dave`. -/
def daveRelay : Extrinsic H256 :=
  relayExtrinsic .balance
    ((⟨some (.id ferdie, default, 0, .immortal), .balancesTransfer (.id dave) 100⟩ :
      Extrinsic H256).encode Call.encode) 1 default default

/-- `dave`'s signed `Balances::transfer` of nothing to himself. -/
def daveSpends : Extrinsic H256 :=
  ⟨some (.id dave, default, 0, .immortal), .balancesTransfer (.id dave) 0⟩

theorem relay_credit_breaks_issuance_ledger :
    Succeeds routingEnv feeDestination daveRelay ∧
      (push routingEnv feeDestination daveRelay).runtime.totalIssuance = 0 ∧
      Balances.freeBalance (push routingEnv feeDestination daveRelay).runtime dave = 100 ∧
      Succeeds routingEnv (push routingEnv feeDestination daveRelay) daveSpends ∧
      (push routingEnv (push routingEnv feeDestination daveRelay) daveSpends).runtime.totalIssuance =
        0 ∧
      Balances.freeBalance (push routingEnv (push routingEnv feeDestination daveRelay) daveSpends).runtime
        dave = 0 := by
  refine ⟨?_, ?_, ?_, ?_, ?_, ?_⟩ <;> decide +kernel

end Routing
end Yeeroot

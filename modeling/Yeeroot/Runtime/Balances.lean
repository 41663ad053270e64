import Yeeroot.Runtime.Types
import Yeeroot.Sharding.Utils

/-!
# The `balances` module

`srml/yee-balances`: the native currency.  Each account has a free and a reserved balance;
a balance that falls below the existential deposit is removed as dust, and an account with
neither is reaped.  Total issuance is not kept by the functions that change balances but by
the *imbalances* they return: dropping a `NegativeImbalance` lowers it (saturating at zero),
dropping a `PositiveImbalance` raises it (saturating at `u128::MAX`).

Yee changes substrate's `transfer` for sharding: when the destination belongs to another
shard, the sender is debited value and fee and only the fee is burned; the value is paid out
on the destination shard by `relay_transfer`, which credits without raising issuance.

Every function takes the storage and returns the new storage with its result.  A call that
returns `Err` keeps the writes it made before, as this substrate version does; a panic
(`expect` on the shard info, `unwrap` of a relayed transfer) aborts and returns `Panic`.

The hook `on_new_account` is `indices`', which enumerates new accounts; it is a parameter,
acting on the enumeration only.  Events and the fees `pow` records for the block reward are
not modelled.
-/

namespace Yeeroot
namespace Balances

open Scale Substrate Primitives Rust Yeeroot.Runtime

/-! ## Imbalances -/

/-- `NegativeImbalance`: funds destroyed without an opposite entry. -/
structure NegativeImbalance where
  amount : ℕ

/-- `PositiveImbalance`: funds created without an opposite entry. -/
structure PositiveImbalance where
  amount : ℕ

/-- `SignedImbalance`. -/
inductive SignedImbalance where
  | positive (p : PositiveImbalance)
  | negative (n : NegativeImbalance)

/-- `UpdateBalanceOutcome`. -/
inductive UpdateBalanceOutcome where
  | updated
  | accountKilled

section Imbalance

variable {AccountId : Type}

/-- `Drop for NegativeImbalance`: total issuance goes down, saturating at zero. -/
def NegativeImbalance.drop (n : NegativeImbalance) (st : State AccountId) : State AccountId :=
  { st with totalIssuance := U128.saturatingSub st.totalIssuance n.amount }

/-- `Drop for PositiveImbalance`: total issuance goes up, saturating at `u128::MAX`. -/
def PositiveImbalance.drop (p : PositiveImbalance) (st : State AccountId) : State AccountId :=
  { st with totalIssuance := U128.saturatingAdd st.totalIssuance p.amount }

/-- Dropping a signed imbalance. -/
def SignedImbalance.drop : SignedImbalance → State AccountId → State AccountId
  | .positive p => p.drop
  | .negative n => n.drop

end Imbalance

section Module

variable {AccountId : Type} [DecidableEq AccountId]

/-! ## Reading balances -/

/-- `free_balance`: the stored value, `0` for an absent key. -/
def freeBalance (st : State AccountId) (who : AccountId) : ℕ := (st.freeBalance who).getD 0

/-- `reserved_balance`. -/
def reservedBalance (st : State AccountId) (who : AccountId) : ℕ :=
  (st.reservedBalance who).getD 0

/-- `total_balance`: free plus reserved, a plain `u128` addition. -/
def totalBalance (st : State AccountId) (who : AccountId) : ℕ :=
  U128.wrappingAdd (freeBalance st who) (reservedBalance st who)

/-- `vesting_balance`: what vesting still locks of the free balance. -/
def vestingBalance (st : State AccountId) (who : AccountId) : ℕ :=
  match st.vesting who with
  | some v => min (freeBalance st who) (v.lockedAt st.blockNumber)
  | none => 0

/-- `ensure_can_withdraw`: vesting and liquidity locks may forbid leaving `newBalance`. -/
def ensureCanWithdraw (st : State AccountId) (who : AccountId) (reason : WithdrawReason)
    (newBalance : ℕ) : Except String Unit :=
  if (reason = .reserve ∨ reason = .transfer) ∧ newBalance < vestingBalance st who then
    .error "vesting balance too high to send value"
  else if st.locks who = [] then .ok ()
  else if (st.locks who).all fun l =>
      l.«until» ≤ st.blockNumber || l.amount ≤ newBalance || !(l.reasons.contains reason) then
    .ok ()
  else .error "account liquidity restrictions prevent withdrawal"

/-! ## Writing balances -/

/-- `reap_account`: the account's nonce is removed. -/
def reapAccount (who : AccountId) (st : State AccountId) : State AccountId :=
  { st with accountNonce := Function.update st.accountNonce who 0 }

/-- `on_free_too_low`: the free balance is taken and burned as dust, the locks are removed,
and the account is reaped if it has no reserved balance. -/
def onFreeTooLow (who : AccountId) (st : State AccountId) : State AccountId :=
  let dust := freeBalance st who
  let st := { st with
    freeBalance := Function.update st.freeBalance who none
    locks := Function.update st.locks who [] }
  let st := if dust ≠ 0 then (⟨dust⟩ : NegativeImbalance).drop st else st
  if reservedBalance st who = 0 then reapAccount who st else st

/-- `on_reserved_too_low`: the reserved balance is taken and burned as dust, and the account
is reaped if it has no free balance. -/
def onReservedTooLow (who : AccountId) (st : State AccountId) : State AccountId :=
  let dust := reservedBalance st who
  let st := { st with reservedBalance := Function.update st.reservedBalance who none }
  let st := if dust ≠ 0 then (⟨dust⟩ : NegativeImbalance).drop st else st
  if freeBalance st who = 0 then reapAccount who st else st

/-- `set_free_balance`: a balance below the existential deposit is stored and then removed
as dust. -/
def setFreeBalance (who : AccountId) (balance : ℕ) (st : State AccountId) :
    State AccountId × UpdateBalanceOutcome :=
  let st := { st with freeBalance := Function.update st.freeBalance who (some balance) }
  if balance < st.existentialDeposit then (onFreeTooLow who st, .accountKilled)
  else (st, .updated)

/-- `set_reserved_balance`. -/
def setReservedBalance (who : AccountId) (balance : ℕ) (st : State AccountId) :
    State AccountId × UpdateBalanceOutcome :=
  let st := { st with reservedBalance := Function.update st.reservedBalance who (some balance) }
  if balance < st.existentialDeposit then (onReservedTooLow who st, .accountKilled)
  else (st, .updated)

variable (onNewAccount : AccountId → (UInt32 → Option AccountId) → (UInt32 → Option AccountId))

/-- `new_account`: the `on_new_account` hook of `indices` enumerates the account. -/
def newAccount (who : AccountId) (st : State AccountId) : State AccountId :=
  { st with lookupIndex := onNewAccount who st.lookupIndex }

/-! ## `Currency` -/

variable [Codec AccountId]

/-- `Currency::transfer`.  A destination of another shard is debited value and fee, of which
only the fee is burned. -/
def transfer (transactor dest : AccountId) (value : ℕ) (st : State AccountId) :
    Except Panic (State AccountId × Except String Unit) :=
  let fromBalance := freeBalance st transactor
  let fee := st.transferFee
  match U128.checkedAdd value fee with
  | none => .ok (st, .error "got overflow after adding a fee to value")
  | some liability =>
    match U128.checkedSub fromBalance liability with
    | none => .ok (st, .error "balance too low to send value")
    | some newFromBalance =>
      match ensureCanWithdraw st transactor .transfer newFromBalance with
      | .error e => .ok (st, .error e)
      | .ok () =>
        let toBalance := freeBalance st dest
        match st.currentShardInfo with
        | none => .error (Panic.expect "shard info must be ready for runtime modules")
        | some info =>
          match Sharding.shardNumFor dest info.count with
          | none => .error (Panic.expect "can't get target shard num")
          | some dn =>
            if info.num ≠ dn then
              -- cross-shard: the value leaves the shard, the fee is burned
              let st := (setFreeBalance transactor newFromBalance st).1
              .ok ((⟨fee⟩ : NegativeImbalance).drop st, .ok ())
            else
              match U128.checkedAdd toBalance value with
              | none => .ok (st, .error "destination balance too high to receive value")
              | some newToBalance =>
                if transactor ≠ dest then
                  let st := (setFreeBalance transactor newFromBalance st).1
                  let st := if (st.freeBalance dest).isNone then newAccount onNewAccount dest st else st
                  let st := (setFreeBalance dest newToBalance st).1
                  .ok ((⟨fee⟩ : NegativeImbalance).drop st, .ok ())
                else .ok (st, .ok ())

/-- `Currency::withdraw`. -/
def withdraw (who : AccountId) (value : ℕ) (reason : WithdrawReason)
    (liveness : ExistenceRequirement) (st : State AccountId) :
    State AccountId × Except String NegativeImbalance :=
  match U128.checkedSub (freeBalance st who) value with
  | some newBalance =>
    if liveness = .keepAlive ∧ newBalance < st.existentialDeposit then
      (st, .error "payment would kill account")
    else
      match ensureCanWithdraw st who reason newBalance with
      | .error e => (st, .error e)
      | .ok () => ((setFreeBalance who newBalance st).1, .ok ⟨value⟩)
  | none => (st, .error "too few free funds in account")

/-- `Currency::slash`: free balance first, then reserved; returns the imbalance and what
could not be slashed. -/
def slash (who : AccountId) (value : ℕ) (st : State AccountId) :
    State AccountId × NegativeImbalance × ℕ :=
  let free := freeBalance st who
  let freeSlash := min free value
  let st := (setFreeBalance who (free - freeSlash) st).1
  let remainingSlash := value - freeSlash
  if remainingSlash ≠ 0 then
    let reserved := reservedBalance st who
    let reservedSlash := min reserved remainingSlash
    let st := (setReservedBalance who (reserved - reservedSlash) st).1
    (st, ⟨freeSlash + reservedSlash⟩, remainingSlash - reservedSlash)
  else (st, ⟨value⟩, 0)

/-- `Currency::deposit_into_existing`. -/
def depositIntoExisting (who : AccountId) (value : ℕ) (st : State AccountId) :
    State AccountId × Except String PositiveImbalance :=
  if totalBalance st who = 0 then (st, .error "beneficiary account must pre-exist")
  else ((setFreeBalance who (U128.wrappingAdd (freeBalance st who) value) st).1, .ok ⟨value⟩)

/-- `Currency::make_free_balance_be`: the imbalance of the change, and the outcome. -/
def makeFreeBalanceBe (who : AccountId) (balance : ℕ) (st : State AccountId) :
    State AccountId × SignedImbalance × UpdateBalanceOutcome :=
  let original := freeBalance st who
  if balance < st.existentialDeposit ∧ original = 0 then
    (st, .positive ⟨0⟩, .accountKilled)
  else
    let imbalance : SignedImbalance :=
      if original ≤ balance then .positive ⟨balance - original⟩
      else .negative ⟨original - balance⟩
    if balance < st.existentialDeposit then
      ((setFreeBalance who balance st).1, imbalance, .accountKilled)
    else
      let st := if (st.freeBalance who).isNone then newAccount onNewAccount who st else st
      ((setFreeBalance who balance st).1, imbalance, .updated)

/-- `Currency::deposit_creating`.  A negative change, which the source calls impossible, is
dropped and a zero imbalance returned. -/
def depositCreating (who : AccountId) (value : ℕ) (st : State AccountId) :
    State AccountId × PositiveImbalance :=
  match makeFreeBalanceBe onNewAccount who (U128.wrappingAdd (freeBalance st who) value) st with
  | (st, .positive p, _) => (st, p)
  | (st, .negative n, _) => (n.drop st, ⟨0⟩)

/-! ## `ReservableCurrency` -/

/-- `ReservableCurrency::reserve`. -/
def reserve (who : AccountId) (value : ℕ) (st : State AccountId) :
    State AccountId × Except String Unit :=
  let b := freeBalance st who
  if b < value then (st, .error "not enough free funds")
  else
    let newBalance := b - value
    match ensureCanWithdraw st who .reserve newBalance with
    | .error e => (st, .error e)
    | .ok () =>
      let st := (setReservedBalance who (U128.wrappingAdd (reservedBalance st who) value) st).1
      ((setFreeBalance who newBalance st).1, .ok ())

/-- `ReservableCurrency::unreserve`: returns what could not be unreserved. -/
def unreserve (who : AccountId) (value : ℕ) (st : State AccountId) : State AccountId × ℕ :=
  let b := reservedBalance st who
  let actual := min b value
  let st := (setFreeBalance who (U128.wrappingAdd (freeBalance st who) actual) st).1
  ((setReservedBalance who (b - actual) st).1, value - actual)

/-- `ReservableCurrency::slash_reserved`. -/
def slashReserved (who : AccountId) (value : ℕ) (st : State AccountId) :
    State AccountId × NegativeImbalance × ℕ :=
  let b := reservedBalance st who
  let slash := min b value
  ((setReservedBalance who (b - slash) st).1, ⟨slash⟩, value - slash)

/-- `ReservableCurrency::repatriate_reserved`: reserved funds of `slashed` become free funds
of `beneficiary`. -/
def repatriateReserved (slashed beneficiary : AccountId) (value : ℕ) (st : State AccountId) :
    State AccountId × Except String ℕ :=
  if totalBalance st beneficiary = 0 then (st, .error "beneficiary account must pre-exist")
  else
    let b := reservedBalance st slashed
    let slash := min b value
    let st := (setFreeBalance beneficiary (U128.wrappingAdd (freeBalance st beneficiary) slash) st).1
    ((setReservedBalance slashed (b - slash) st).1, .ok (value - slash))

/-! ## Fees, relays and the call -/

/-- `MakePayment::make_payment`: the transaction fee is withdrawn, keeping the account alive,
and burned. -/
def makePayment (transactor : AccountId) (encodedLen : ℕ) (st : State AccountId) :
    State AccountId × Except String Unit :=
  let transactionFee :=
    U128.wrappingAdd st.transactionBaseFee (U128.wrappingMul st.transactionByteFee encodedLen)
  match withdraw transactor transactionFee .transactionPayment .keepAlive st with
  | (st, .error e) => (st, .error e)
  | (st, .ok imbalance) => (imbalance.drop st, .ok ())

variable [Inhabited AccountId]

/-- `relay_transfer`: the relayed transfer is read with the balances layout, and its amount
credited to its destination, without any change to total issuance. -/
def relayTransfer (transfer : Bytes) (st : State AccountId) :
    Except Panic (State AccountId × Except String Unit) :=
  match (OriginExtrinsic.decode .balance transfer : Option (OriginExtrinsic AccountId U128)) with
  | none => .error Panic.unwrapNone
  | some tx =>
    let st := if (st.freeBalance tx.dest).isNone then newAccount onNewAccount tx.dest st else st
    let toBalance := freeBalance st tx.dest
    match U128.checkedAdd toBalance tx.amount.val with
    | none => .ok (st, .error "destination balance too high to receive value")
    | some b => .ok ((setFreeBalance tx.dest b st).1, .ok ())

/-- The call `transfer(dest, value)`: a signed origin, whose destination address is looked
up before the transfer. -/
def transferCall (origin : RawOrigin AccountId) (dest : Address AccountId) (value : ℕ)
    (st : State AccountId) : Except Panic (State AccountId × Except String Unit) :=
  match ensureSigned origin with
  | .error e => .ok (st, .error e)
  | .ok transactor =>
    match dest.lookup st.lookupIndex with
    | .error e => .ok (st, .error e)
    | .ok dest => transfer onNewAccount transactor dest value st

/-! ## A failed transfer changes nothing -/

omit [Inhabited AccountId] in
/-- A `Currency::transfer` that returns `Err` has written nothing: each of its checks comes
before its first write. -/
lemma transfer_error_unchanged {transactor dest : AccountId} {value : ℕ} {st st' : State AccountId}
    {e : String} (h : transfer onNewAccount transactor dest value st = .ok (st', .error e)) :
    st' = st := by
  have hkept : ∀ {msg : String}, (Except.ok (st, .error msg) :
      Except Panic (State AccountId × Except String Unit)) = .ok (st', .error e) → st' = st :=
    fun h => (Prod.mk.inj (Except.ok.inj h)).1.symm
  dsimp only [transfer] at h
  -- the checks of the fee, the balance and the locks
  split at h
  · exact hkept h
  split at h
  · exact hkept h
  split at h
  · exact hkept h
  -- the shard info and the destination's shard: a panic, or the cross-shard success
  split at h
  · cases h
  split at h
  · cases h
  split at h
  · cases h
  -- the destination's overflow check, before the same-shard writes
  split at h
  · exact hkept h
  split at h <;> cases h

omit [Inhabited AccountId] in
/-- The call `transfer` that returns `Err` has written nothing, the address lookup included. -/
lemma transferCall_error_unchanged {origin : RawOrigin AccountId} {dest : Address AccountId}
    {value : ℕ} {st st' : State AccountId} {e : String}
    (h : transferCall onNewAccount origin dest value st = .ok (st', .error e)) : st' = st := by
  unfold transferCall at h
  split at h
  · exact (Prod.mk.inj (Except.ok.inj h)).1.symm
  split at h
  · exact (Prod.mk.inj (Except.ok.inj h)).1.symm
  · exact transfer_error_unchanged onNewAccount h

end Module

end Balances
end Yeeroot

import Yeeroot.Runtime.Balances
import Yeeroot.Runtime.Assets
import Yeeroot.Machine.Run

/-!
# The executive and the relay module

`srml/yee-executive` applies one transaction at a time (`apply_extrinsic_with_len`): it
checks the signature, the block's length limit, and then either the nonce and fee of a
signed transaction or, for an unsigned one that `RelayParams::decode` recognises as a relay,
the *replay guard*: the relay set of `system` must not hold the hash of the relay's origin,
and gets it.  Then the call is dispatched.

`relay::transfer` pays a relayed transfer out through `balances` or `assets`, as its
`relay_type` says.  It never looks at its origin.

The executive's own storage (the relay set and the extrinsic counters) is a separate part of
the state, which the modules cannot reach: the relay set changes only in the replay guard.

The main result is `relay_origin_credited_once`: along any run of the executive, an unsigned
relay of an origin is paid out at most once.  The guard sees every unsigned relay whose
origin can be paid out, because such an origin is long enough for `RelayParams::decode`
(`relayParams_decode_unsigned`).  It sees no signed one (`relayParams_decode_signed`), and a
signed `Relay::transfer` is dispatched all the same.
-/

namespace Yeeroot

open Scale Substrate Primitives Rust Yeeroot.Runtime Machine

namespace Relay

variable {AccountId : Type} [DecidableEq AccountId] [Codec AccountId] [Inhabited AccountId]
  (onNewAccount : AccountId → (UInt32 → Option AccountId) → (UInt32 → Option AccountId))

/-- `relay::transfer`: the relayed transfer `tx` is paid out by the module `relay_type`
names.  The origin, the block number and the hashes are not used. -/
def transfer (_origin : RawOrigin AccountId) (relayType : RelayTypes) (tx : Bytes)
    (_number : UInt64) (_hash _parent : H256) (st : State AccountId) :
    Except Panic (State AccountId × Except String Unit) :=
  match relayType with
  | .balance => Balances.relayTransfer onNewAccount tx st
  | .assets => .ok (Assets.relayTransfer tx st)

end Relay

namespace Executive

/-- `MAX_TRANSACTIONS_SIZE`. -/
def maxTransactionsSize : UInt32 := 4 * 1024 * 1024

/-- `primitives::BLOCK_FULL`. -/
def blockFull : String := "block size limit is reached"

/-- `primitives::BAD_SIGNATURE`. -/
def badSignature : String := "bad signature in extrinsic"

/-- `internal::ApplyError`. -/
inductive ApplyError where
  | badSignature (e : String)
  | stale
  | future
  | cantPay
  | fullBlock
deriving DecidableEq

/-- `internal::ApplyOutcome`. -/
inductive ApplyOutcome where
  | success
  | fail (e : String)
deriving DecidableEq

/-- What the executive takes from outside the repository: Blake2, the check of a signed
transaction's signature over its nonce, call, era and the era's birth block, and the
`on_new_account` hook of `indices`. -/
structure Env (AccountId : Type) where
  blake2 : Bytes → H256
  verifySignature : AccountId → FixedBytes 64 → UInt64 → Call AccountId → Era → Bool
  onNewAccount : AccountId → (UInt32 → Option AccountId) → (UInt32 → Option AccountId)

/-- The executive's state: its own part of `system`'s storage, and the modules' storage. -/
structure State (AccountId : Type) where
  /-- The fork's `system::RelayExtrinsic`: `1` for the hash of an origin already relayed. -/
  relayExtrinsic : H256 → UInt16
  /-- `system::AllExtrinsicsLen`. -/
  allExtrinsicsLen : UInt32
  /-- The extrinsic index `system` keeps under `EXTRINSIC_INDEX`. -/
  extrinsicIndex : UInt32
  runtime : Runtime.State AccountId

/-- `CheckedExtrinsic`: the sender and nonce of a signed transaction, and the call. -/
structure CheckedExtrinsic (AccountId : Type) where
  signed : Option (AccountId × UInt64)
  function : Call AccountId

section Apply

variable {AccountId : Type} [DecidableEq AccountId] [Codec AccountId] [Inhabited AccountId]
  (env : Env AccountId)

/-- `Checkable::check`: a signed transaction's address is looked up and its signature
verified. -/
def check (st : Runtime.State AccountId) (uxt : Extrinsic AccountId) :
    Except String (CheckedExtrinsic AccountId) :=
  match uxt.signature with
  | none => .ok ⟨none, uxt.function⟩
  | some (address, signature, index, era) =>
    match address.lookup st.lookupIndex with
    | .error e => .error e
    | .ok signed =>
      if env.verifySignature signed signature index uxt.function era then
        .ok ⟨some (signed, index), uxt.function⟩
      else .error badSignature

/-- The dispatch of a call with its origin. -/
def dispatch (origin : RawOrigin AccountId) (call : Call AccountId) (st : Runtime.State AccountId) :
    Except Panic (Runtime.State AccountId × Except String Unit) :=
  match call with
  | .balancesTransfer dest value => Balances.transferCall env.onNewAccount origin dest value st
  | .assetsIssue name total decimals => .ok (Assets.issue origin name total decimals st)
  | .assetsTransfer shardCode id target amount => Assets.transfer origin shardCode id target amount st
  | .relayTransfer relayType tx number hash parent =>
    Relay.transfer env.onNewAccount origin relayType tx number hash parent st

/-- `note_applied_extrinsic`: the extrinsic index goes up, and the length is added,
saturating, to `AllExtrinsicsLen`. -/
def noteAppliedExtrinsic (encodedLen : UInt32) (st : State AccountId) : State AccountId :=
  { st with
    extrinsicIndex := st.extrinsicIndex + 1
    allExtrinsicsLen :=
      if encodedLen.toNat + st.allExtrinsicsLen.toNat < 2 ^ 32 then encodedLen + st.allExtrinsicsLen
      else 0xffffffff }

/-- The stage of `apply_extrinsic_with_len` between the checks and the dispatch: a signed
transaction's nonce and fee, or an unsigned relay's replay guard.  An error stops the
transaction. -/
def preDispatch (originData : Bytes) (encodedLen : ℕ) (signed : Option (AccountId × UInt64))
    (st : State AccountId) : State AccountId × Option ApplyError :=
  match signed with
  | some (sender, index) =>
    let expectedIndex := st.runtime.accountNonce sender
    if index ≠ expectedIndex then (st, some (if index < expectedIndex then .stale else .future))
    else
      match Balances.makePayment sender encodedLen st.runtime with
      | (_, .error _) => (st, some .cantPay)
      | (runtime, .ok ()) =>
        ({ st with runtime := { runtime with
            accountNonce := Function.update runtime.accountNonce sender (expectedIndex + 1) } },
          none)
  | none =>
    match RelayParams.decode env.blake2 originData with
    | some rtx =>
      if st.relayExtrinsic rtx.hash = 1 then (st, some .stale)
      else ({ st with relayExtrinsic := Function.update st.relayExtrinsic rtx.hash 1 }, none)
    | none => (st, none)

/-- The origin a checked transaction is dispatched with: `Signed` by its sender, or
`Inherent` for an unsigned one. -/
def CheckedExtrinsic.origin (xt : CheckedExtrinsic AccountId) : RawOrigin AccountId :=
  match xt.signed with
  | some (sender, _) => .signed sender
  | none => .inherent

/-- The stage of `apply_extrinsic_with_len` after `preDispatch`: the call is dispatched, the
extrinsic noted, and the call's error mapped to the outcome. -/
def dispatchAndNote (xt : CheckedExtrinsic AccountId) (encodedLen : ℕ) (st : State AccountId) :
    Except Panic (State AccountId × Except ApplyError ApplyOutcome) :=
  match dispatch env xt.origin xt.function st.runtime with
  | .error p => .error p
  | .ok (runtime, r) =>
    let st := noteAppliedExtrinsic (UInt32.ofNat encodedLen) { st with runtime := runtime }
    .ok (st, match r with
      | .ok () => .ok .success
      | .error e => if e = blockFull then .error .fullBlock else .ok (.fail e))

/-- `apply_extrinsic_with_len`, as block execution calls it (nothing to note). -/
def applyExtrinsicWithLen (uxt : Extrinsic AccountId) (encodedLen : ℕ) (st : State AccountId) :
    Except Panic (State AccountId × Except ApplyError ApplyOutcome) :=
  match check env st.runtime uxt with
  | .error e => .ok (st, .error (.badSignature e))
  | .ok xt =>
    if maxTransactionsSize < st.allExtrinsicsLen + UInt32.ofNat encodedLen then
      .ok (st, .error .fullBlock)
    else
      match preDispatch env (uxt.encode Call.encode) encodedLen xt.signed st with
      | (st, some e) => .ok (st, .error e)
      | (st, none) => dispatchAndNote env xt encodedLen st

/-- `apply_extrinsic`: the transaction with the length of its encoding. -/
def applyExtrinsic (uxt : Extrinsic AccountId) (st : State AccountId) :
    Except Panic (State AccountId × Except ApplyError ApplyOutcome) :=
  applyExtrinsicWithLen env uxt (uxt.encode Call.encode).length st

/-- One transaction of a chain: an applied transaction keeps its writes; one that the
executive rejects, or that panics, is not in any block and changes nothing. -/
def push (st : State AccountId) (uxt : Extrinsic AccountId) : State AccountId :=
  match applyExtrinsic env uxt st with
  | .ok (st', .ok _) => st'
  | _ => st

/-- The transaction `uxt` is applied successfully in state `st`. -/
def Succeeds (st : State AccountId) (uxt : Extrinsic AccountId) : Prop :=
  ∃ st', applyExtrinsic env uxt st = .ok (st', .ok .success)

/-- The outcome of a transaction that does not panic. -/
def outcome (st : State AccountId) (uxt : Extrinsic AccountId) :
    Option (Except ApplyError ApplyOutcome) :=
  match applyExtrinsic env uxt st with
  | .ok (_, r) => some r
  | .error _ => none

lemma succeeds_iff_outcome {st : State AccountId} {uxt : Extrinsic AccountId} :
    Succeeds env st uxt ↔ outcome env st uxt = some (.ok .success) := by
  unfold Succeeds outcome
  constructor
  · rintro ⟨st', h⟩
    rw [h]
  · intro h
    split at h
    · rename_i st' r hr
      cases h
      exact ⟨st', hr⟩
    · cases h

instance (st : State AccountId) (uxt : Extrinsic AccountId) : Decidable (Succeeds env st uxt) :=
  decidable_of_iff _ (succeeds_iff_outcome env).symm

end Apply

section Guard

variable {AccountId : Type} [DecidableEq AccountId] [Codec AccountId] [Inhabited AccountId]
  (env : Env AccountId)

/-- An unsigned relay transaction of origin `o`. -/
def relayExtrinsic (relayType : RelayTypes) (o : Bytes) (number : UInt64) (hash parent : H256) :
    Extrinsic AccountId :=
  ⟨none, .relayTransfer relayType o number hash parent⟩

omit [DecidableEq AccountId] [Inhabited AccountId] in
/-- The replay guard recognises an unsigned relay whose origin is long enough for
`OriginExtrinsic::decode`, and keys it by the origin's hash. -/
lemma relayParams_decode_relayExtrinsic (relayType : RelayTypes) (o : Bytes) (number : UInt64)
    (hash parent : H256) (ho : 66 ≤ o.length)
    (hlen : ((relayExtrinsic relayType o number hash parent : Extrinsic AccountId).payload
      Call.encode).length < 2 ^ 32) :
    RelayParams.decode env.blake2
        ((relayExtrinsic relayType o number hash parent : Extrinsic AccountId).encode Call.encode) =
      some ⟨number, env.blake2 o, hash, parent, relayType, o⟩ := by
  have hpayload :
      (relayExtrinsic relayType o number hash parent : Extrinsic AccountId).payload Call.encode =
        1 :: 9 :: 0 :: (Codec.encode relayType ++ Codec.encode o ++ encodeCompact number.toNat ++
          Codec.encode hash ++ Codec.encode parent) := rfl
  have ho32 : o.length < 2 ^ 32 := by
    rw [hpayload] at hlen
    simp only [List.length_cons, List.length_append, encode_bytes] at hlen
    omega
  exact relayParams_decode_unsigned env.blake2 hpayload hlen ho ho32

omit [Codec AccountId] [Inhabited AccountId] in
/-- A signed transaction leaves the relay set alone. -/
lemma preDispatch_signed_relayExtrinsic (originData : Bytes) (encodedLen : ℕ)
    (signed : AccountId × UInt64) (st : State AccountId) :
    (preDispatch env originData encodedLen (some signed) st).1.relayExtrinsic = st.relayExtrinsic := by
  unfold preDispatch
  dsimp only
  split_ifs
  · rfl
  · rfl
  · split <;> rfl

omit [Codec AccountId] [Inhabited AccountId] in
/-- The relay set only grows. -/
lemma preDispatch_relayExtrinsic (originData : Bytes) (encodedLen : ℕ)
    (signed : Option (AccountId × UInt64)) {st : State AccountId} {h : H256}
    (hflag : st.relayExtrinsic h = 1) :
    (preDispatch env originData encodedLen signed st).1.relayExtrinsic h = 1 := by
  cases signed with
  | some s => rw [preDispatch_signed_relayExtrinsic]; exact hflag
  | none =>
    simp only [preDispatch]
    split
    · split_ifs
      · exact hflag
      · dsimp only
        rw [Function.update_apply]
        split_ifs <;> simp [hflag]
    · exact hflag

/-- Dispatch leaves the relay set alone: no module can reach it. -/
lemma dispatchAndNote_relayExtrinsic {xt : CheckedExtrinsic AccountId} {encodedLen : ℕ}
    {st st' : State AccountId} {r : Except ApplyError ApplyOutcome}
    (h : dispatchAndNote env xt encodedLen st = .ok (st', r)) :
    st'.relayExtrinsic = st.relayExtrinsic := by
  unfold dispatchAndNote at h
  split at h
  · cases h
  · simp only [Except.ok.injEq, Prod.mk.injEq] at h
    rw [← h.1]
    rfl

/-- The executive keeps every hash of the relay set. -/
lemma applyExtrinsicWithLen_relayExtrinsic {uxt : Extrinsic AccountId} {encodedLen : ℕ}
    {st st' : State AccountId} {r : Except ApplyError ApplyOutcome} {h : H256}
    (happly : applyExtrinsicWithLen env uxt encodedLen st = .ok (st', r))
    (hflag : st.relayExtrinsic h = 1) : st'.relayExtrinsic h = 1 := by
  unfold applyExtrinsicWithLen at happly
  split at happly
  · simp only [Except.ok.injEq, Prod.mk.injEq] at happly
    rw [← happly.1]
    exact hflag
  · rename_i xt _
    split_ifs at happly
    · simp only [Except.ok.injEq, Prod.mk.injEq] at happly
      rw [← happly.1]
      exact hflag
    · have hpre := preDispatch_relayExtrinsic env (uxt.encode Call.encode) encodedLen xt.signed hflag
      split at happly
      · rename_i heq
        simp only [Except.ok.injEq, Prod.mk.injEq] at happly
        rw [← happly.1]
        rw [heq] at hpre
        exact hpre
      · rename_i heq
        rw [dispatchAndNote_relayExtrinsic env happly]
        rw [heq] at hpre
        exact hpre

/-- A transaction of a chain keeps every hash of the relay set. -/
lemma push_relayExtrinsic {st : State AccountId} {uxt : Extrinsic AccountId} {h : H256}
    (hflag : st.relayExtrinsic h = 1) : (push env st uxt).relayExtrinsic h = 1 := by
  unfold push
  split
  · rename_i happly
    exact applyExtrinsicWithLen_relayExtrinsic env happly hflag
  · exact hflag

/-- A relay paid out by `relay::transfer` has an origin its module can read. -/
lemma originExtrinsic_decode_of_transfer
    (onNewAccount : AccountId → (UInt32 → Option AccountId) → (UInt32 → Option AccountId))
    {origin : RawOrigin AccountId} {relayType : RelayTypes} {tx : Bytes} {number : UInt64}
    {hash parent : H256} {st st' : Runtime.State AccountId}
    (hok : Relay.transfer onNewAccount origin relayType tx number hash parent st = .ok (st', .ok ())) :
    (OriginExtrinsic.decode relayType tx : Option (OriginExtrinsic AccountId U128)).isSome := by
  cases relayType with
  | balance =>
    unfold Relay.transfer Balances.relayTransfer at hok
    cases hdec : (OriginExtrinsic.decode .balance tx : Option (OriginExtrinsic AccountId U128)) with
    | none => rw [hdec] at hok; cases hok
    | some tx => rfl
  | assets =>
    unfold Relay.transfer Assets.relayTransfer at hok
    cases hdec : (OriginExtrinsic.decode .assets tx : Option (OriginExtrinsic AccountId U128)) with
    | none => rw [hdec] at hok; cases hok
    | some tx => rfl

section Relay

variable {relayType : RelayTypes} {o : Bytes} {number : UInt64} {hash parent : H256}
  {st : State AccountId}

/-- The replay guard: an unsigned relay whose origin's hash is in the relay set is refused. -/
lemma not_succeeds_of_relayed (ho : 66 ≤ o.length)
    (hlen : ((relayExtrinsic relayType o number hash parent : Extrinsic AccountId).payload Call.encode).length < 2 ^ 32)
    (hflag : st.relayExtrinsic (env.blake2 o) = 1) :
    ¬ Succeeds env st (relayExtrinsic relayType o number hash parent) := by
  rintro ⟨st', happly⟩
  have hdec := relayParams_decode_relayExtrinsic env relayType o number hash parent ho hlen
  have hcheck : check env st.runtime (relayExtrinsic relayType o number hash parent) =
      .ok ⟨none, .relayTransfer relayType o number hash parent⟩ := rfl
  unfold applyExtrinsic applyExtrinsicWithLen at happly
  rw [hcheck] at happly
  dsimp only at happly
  split_ifs at happly
  · cases happly
  · simp only [preDispatch, hdec, hflag, if_true] at happly
    cases happly

/-- A successful dispatch stage dispatched its call successfully. -/
lemma dispatch_of_dispatchAndNote {xt : CheckedExtrinsic AccountId} {encodedLen : ℕ}
    {st st' : State AccountId} (h : dispatchAndNote env xt encodedLen st = .ok (st', .ok .success)) :
    ∃ runtime, dispatch env xt.origin xt.function st.runtime = .ok (runtime, .ok ()) := by
  unfold dispatchAndNote at h
  split at h
  · cases h
  · rename_i runtime r hdispatch
    cases r with
    | ok u => exact ⟨runtime, hdispatch⟩
    | error e =>
      simp only [Except.ok.injEq, Prod.mk.injEq] at h
      split_ifs at h <;> simp at h

/-- An unsigned relay that succeeds dispatched from the state the guard left, and its
origin is long enough for the guard to see it. -/
lemma origin_length_of_succeeds (hs : Succeeds env st (relayExtrinsic relayType o number hash parent)) :
    66 ≤ o.length := by
  obtain ⟨st', happly⟩ := hs
  have hcheck : check env st.runtime (relayExtrinsic relayType o number hash parent) =
      .ok ⟨none, .relayTransfer relayType o number hash parent⟩ := rfl
  unfold applyExtrinsic applyExtrinsicWithLen at happly
  rw [hcheck] at happly
  dsimp only at happly
  split_ifs at happly
  · cases happly
  · split at happly
    · cases happly
    · rename_i st₁ _
      obtain ⟨runtime, hdispatch⟩ := dispatch_of_dispatchAndNote env happly
      have htransfer : Relay.transfer env.onNewAccount .inherent relayType o number hash parent
          st₁.runtime = .ok (runtime, .ok ()) := hdispatch
      have hdecode := originExtrinsic_decode_of_transfer env.onNewAccount htransfer
      exact originExtrinsic_decode_length hdecode

/-- A successful unsigned relay leaves its origin's hash in the relay set. -/
lemma push_relayExtrinsic_of_succeeds
    (hlen : ((relayExtrinsic relayType o number hash parent : Extrinsic AccountId).payload Call.encode).length < 2 ^ 32)
    (hs : Succeeds env st (relayExtrinsic relayType o number hash parent)) :
    (push env st (relayExtrinsic relayType o number hash parent)).relayExtrinsic (env.blake2 o) = 1 := by
  have hdec := relayParams_decode_relayExtrinsic env relayType o number hash parent
    (origin_length_of_succeeds env hs) hlen
  obtain ⟨st', happly⟩ := hs
  have hpush : push env st (relayExtrinsic relayType o number hash parent) = st' := by
    simp only [push, happly]
  rw [hpush]
  have hcheck : check env st.runtime (relayExtrinsic relayType o number hash parent) =
      .ok ⟨none, .relayTransfer relayType o number hash parent⟩ := rfl
  unfold applyExtrinsic applyExtrinsicWithLen at happly
  rw [hcheck] at happly
  dsimp only at happly
  split_ifs at happly
  · cases happly
  · by_cases hflag : st.relayExtrinsic (env.blake2 o) = 1
    · simp only [preDispatch, hdec, hflag, if_true] at happly
      cases happly
    · simp only [preDispatch, hdec, hflag, if_false] at happly
      rw [dispatchAndNote_relayExtrinsic env happly]
      simp

end Relay

section Run

/-- Step `n` of the chain `xs` from `init` applies, successfully, an unsigned relay of
origin `o`. -/
def PaysOut (init : State AccountId) (xs : ℕ → Extrinsic AccountId) (o : Bytes) (n : ℕ) : Prop :=
  (∃ relayType number hash parent, xs n = relayExtrinsic relayType o number hash parent) ∧
    Succeeds env (run (push env) init xs n) (xs n)

variable {init : State AccountId} {xs : ℕ → Extrinsic AccountId} {o : Bytes}

/-- After a relay of `o` is paid out, the relay set holds `o`'s hash for good. -/
lemma relayExtrinsic_of_paysOut
    (hlen : ∀ n, ((xs n).payload Call.encode).length < 2 ^ 32) {m : ℕ}
    (hm : PaysOut env init xs o m) (k : ℕ) :
    (run (push env) init xs (m + 1 + k)).relayExtrinsic (env.blake2 o) = 1 := by
  obtain ⟨⟨relayType, number, hash, parent, hxs⟩, hs⟩ := hm
  refine run_stable (push env) init xs (fun st => st.relayExtrinsic (env.blake2 o) = 1)
    (fun _ _ h => push_relayExtrinsic env h) (m + 1) ?_ k
  rw [run_succ, hxs]
  rw [hxs] at hs
  exact push_relayExtrinsic_of_succeeds env (hxs ▸ hlen m) hs

/-- No relay of `o` is paid out after one has been. -/
lemma not_paysOut_of_lt (hlen : ∀ n, ((xs n).payload Call.encode).length < 2 ^ 32)
    {m m' : ℕ} (hlt : m < m') (hm : PaysOut env init xs o m) : ¬ PaysOut env init xs o m' := by
  rintro ⟨⟨relayType, number, hash, parent, hxs⟩, hs⟩
  obtain ⟨k, rfl⟩ : ∃ k, m' = m + 1 + k := ⟨m' - m - 1, by omega⟩
  rw [hxs] at hs
  have hflag := relayExtrinsic_of_paysOut env hlen hm k
  exact not_succeeds_of_relayed env (origin_length_of_succeeds env hs) (hxs ▸ hlen (m + 1 + k))
    hflag hs

/-- Along any chain of transactions whose payloads fit their `Compact` prefix, an unsigned
relay of an origin is paid out at most once. -/
theorem relay_origin_credited_once (hlen : ∀ n, ((xs n).payload Call.encode).length < 2 ^ 32)
    {i j : ℕ} (hi : PaysOut env init xs o i) (hj : PaysOut env init xs o j) : i = j := by
  rcases lt_trichotomy i j with h | h | h
  · exact absurd hj (not_paysOut_of_lt env hlen h hi)
  · exact h
  · exact absurd hi (not_paysOut_of_lt env hlen h hj)

/-- Step `n` of the chain `xs` from `init` dispatches, successfully, `Relay::transfer` of the
origin `o`, signed or not. -/
def Credits (init : State AccountId) (xs : ℕ → Extrinsic AccountId) (o : Bytes) (n : ℕ) : Prop :=
  (∃ signature relayType number hash parent,
    xs n = ⟨signature, .relayTransfer relayType o number hash parent⟩) ∧
    Succeeds env (run (push env) init xs n) (xs n)

end Run

end Guard

/-! ## A signed relay

`relay::transfer` does not ask for an inherent origin, and the replay guard only sees
unsigned transactions.  A signed `Relay::transfer` of one origin is paid out each time its
sender files it. -/

/-- `alice` files the relay, `bob` receives it. -/
def alice : H256 := ⟨List.replicate 32 1, List.length_replicate⟩

def bob : H256 := ⟨List.replicate 32 2, List.length_replicate⟩

/-- An executive whose signature check accepts every signature. -/
def replayEnv : Env H256 := ⟨fun _ => default, fun _ _ _ _ _ => true, fun _ l => l⟩

/-- A shard with no balances and no fees. -/
def replayState : State H256 where
  relayExtrinsic := fun _ => 0
  allExtrinsicsLen := 0
  extrinsicIndex := 0
  runtime :=
    { blockNumber := 1, accountNonce := fun _ => 0, lookupIndex := fun _ => none,
      currentShardInfo := none, totalIssuance := 0, existentialDeposit := 0, transferFee := 0,
      transactionBaseFee := 0, transactionByteFee := 0, vesting := fun _ => none,
      freeBalance := fun _ => none, reservedBalance := fun _ => none, locks := fun _ => [],
      assetBalances := fun _ => 0, nextAssetId := 0, assetsName := fun _ => [],
      totalSupply := fun _ => 0, assetsDecimals := fun _ => 0, assetsIssuer := fun _ => none }

/-- The origin: `alice`'s transfer of 100 to `bob`. -/
def replayOrigin : Bytes :=
  (⟨some (.id alice, default, 0, .immortal), .balancesTransfer (.id bob) 100⟩ : Extrinsic H256).encode
    Call.encode

/-- `alice`'s `n`-th transaction: a signed `Relay::transfer` of the origin. -/
def replayChain (n : ℕ) : Extrinsic H256 :=
  ⟨some (.id alice, default, UInt64.ofNat n, .immortal), .relayTransfer .balance replayOrigin 0 default default⟩

theorem relay_origin_credited_twice :
    Credits replayEnv replayState replayChain replayOrigin 0 ∧
      Credits replayEnv replayState replayChain replayOrigin 1 ∧
      Balances.freeBalance (run (push replayEnv) replayState replayChain 2).runtime bob = 200 := by
  refine ⟨⟨⟨_, _, _, _, _, rfl⟩, ?_⟩, ⟨⟨_, _, _, _, _, rfl⟩, ?_⟩, ?_⟩
  · decide +kernel
  · decide +kernel
  · decide +kernel

end Executive
end Yeeroot

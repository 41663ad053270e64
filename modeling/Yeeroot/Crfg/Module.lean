import Yeeroot.Substrate.Primitives
import Yeeroot.Machine.Run
import Yeeroot.Lib.Tally

/-!
# The runtime's CRFG module

`srml/yee-crfg` keeps the finality gadget's authority set in the runtime.  Every block's
inherent `update_authorities(key)` takes the current set, removes authorities from the front
while it holds `MAX_AUTHORITIES_SIZE` or more, appends `(key, 1)`, and stores the result as a
pending change scheduled at the current block with delay 0.  `on_finalize` deposits the
change signal into the block's digest when the block is the one the change was scheduled at,
and enacts the change when the delay has passed, which here is the same block.

So the authority set is a sliding window over the block authors (`authorities_run`), and each
block's digest carries the window it ends with (`blockLogs_run`).

Not modelled: the skip signals of `on_stalled`, which the finality tracker triggers, and the
module's events.  The module never schedules a forced change, so `forced` stays `None`.
-/

namespace Yeeroot
namespace Crfg

open Scale Substrate Machine

/-- `MAX_AUTHORITIES_SIZE`. -/
def maxAuthoritiesSize : ℕ := 13

/-- The index of `Crfg` among the modules with logs in `construct_runtime!` (`System`,
`Consensus`, `Sharding`, `Crfg`, `FinalityTracker`): the first byte of its digest items. -/
def crfgLogIndex : UInt8 := 3

/-- `StoredPendingChange`. -/
structure StoredPendingChange (N SessionKey : Type) where
  scheduledAt : N
  delay : N
  nextAuthorities : List (SessionKey × UInt64)
  forced : Option N
deriving DecidableEq

/-- The module's `RawLog`. -/
inductive RawLog (N SessionKey : Type) where
  | authoritiesChangeSignal (delay : N) (nextAuthorities : List (SessionKey × UInt64))
  | forcedAuthoritiesChangeSignal (median delay : N) (nextAuthorities : List (SessionKey × UInt64))
  | skipSignal (number : N)
deriving DecidableEq

/-- The derived encoding of `RawLog`: the variant index, then the fields. -/
def RawLog.encode {N SessionKey : Type} [Codec N] [Codec SessionKey] :
    RawLog N SessionKey → Bytes
  | .authoritiesChangeSignal delay next => 0 :: Codec.encode (delay, next)
  | .forcedAuthoritiesChangeSignal median delay next => 1 :: Codec.encode (median, delay, next)
  | .skipSignal number => 2 :: Codec.encode number

/-- The module's state: the block number of `system`, the authorities of
`AuthorityStorageVec`, and `PendingChange`. -/
structure State (SessionKey : Type) where
  blockNumber : UInt64
  authorities : List (SessionKey × UInt64)
  pendingChange : Option (StoredPendingChange UInt64 SessionKey)

section Module

variable {Hash AuthorityId SealSignature SessionKey : Type} [Codec SessionKey]

/-- `deposit_log`: the log becomes an `Other` item of the block's digest, behind the module's
log index. -/
def depositLog (log : RawLog UInt64 SessionKey) : DigestItem Hash AuthorityId SealSignature :=
  .other (crfgLogIndex :: log.encode)

/-- `update_authorities_inner`: the window with the new key pushed becomes a change scheduled
at the current block, with delay 0. -/
def updateAuthoritiesInner (info : SessionKey) (st : State SessionKey) : State SessionKey :=
  let authorities := Window.evictFront maxAuthoritiesSize st.authorities
  let authorities := authorities ++ [(info, 1)]
  { st with pendingChange := some ⟨st.blockNumber, 0, authorities, none⟩ }

/-- The inherent call `update_authorities(info)`. -/
def updateAuthorities (origin : RawOrigin SessionKey) (info : SessionKey) (st : State SessionKey) :
    Except String (State SessionKey) :=
  match ensureInherent origin with
  | .error e => .error e
  | .ok () => .ok (updateAuthoritiesInner info st)

/-- `finalize`, with the logs it deposits: the signal at the block the change was scheduled
at, and the change enacted once its delay has passed. -/
def finalize (blockNumber : UInt64) (st : State SessionKey) :
    State SessionKey × List (RawLog UInt64 SessionKey) :=
  match st.pendingChange with
  | none => (st, [])
  | some pendingChange =>
    let logs :=
      if blockNumber = pendingChange.scheduledAt then
        match pendingChange.forced with
        | some median =>
          [.forcedAuthoritiesChangeSignal median pendingChange.delay pendingChange.nextAuthorities]
        | none => [.authoritiesChangeSignal pendingChange.delay pendingChange.nextAuthorities]
      else []
    if blockNumber = pendingChange.scheduledAt + pendingChange.delay then
      ({ st with authorities := pendingChange.nextAuthorities, pendingChange := none }, logs)
    else (st, logs)

/-- One block of the chain, as the module sees it: the block number goes up, the inherent
`update_authorities` of the block's author runs, then `on_finalize`.  The second component is
the logs the module deposits. -/
def executeBlock (st : State SessionKey) (key : SessionKey) :
    State SessionKey × List (RawLog UInt64 SessionKey) :=
  let number := st.blockNumber + 1
  let st := { st with blockNumber := number }
  match updateAuthorities .inherent key st with
  | .error _ => finalize number st
  | .ok st => finalize number st

/-- The module's state after the first `n` blocks of a chain whose block `i + 1` is authored
by `keys i`. -/
def chain (init : State SessionKey) (keys : ℕ → SessionKey) (n : ℕ) : State SessionKey :=
  run (fun st key => (executeBlock st key).1) init keys n

/-- The digest items block `n + 1` gets from the module. -/
def blockLogs (init : State SessionKey) (keys : ℕ → SessionKey) (n : ℕ) :
    List (DigestItem Hash AuthorityId SealSignature) :=
  (executeBlock (chain init keys n) (keys n)).2.map depositLog

/-! ## One block -/

omit [Codec SessionKey] in
/-- The inherent origin passes `update_authorities`. -/
@[simp] lemma updateAuthorities_inherent (info : SessionKey) (st : State SessionKey) :
    updateAuthorities .inherent info st = .ok (updateAuthoritiesInner info st) := rfl

omit [Codec SessionKey] in
/-- With no change pending, a block enacts the window with its author pushed, and signals it. -/
lemma executeBlock_eq (st : State SessionKey) (key : SessionKey) (hst : st.pendingChange = none) :
    executeBlock st key =
      ({ blockNumber := st.blockNumber + 1
         authorities := Window.push maxAuthoritiesSize st.authorities (key, 1)
         pendingChange := none },
        [.authoritiesChangeSignal 0 (Window.push maxAuthoritiesSize st.authorities (key, 1))]) := by
  have hadd : st.blockNumber + 1 + 0 = st.blockNumber + 1 := by simp
  simp [executeBlock, updateAuthoritiesInner, finalize, Window.push, hadd, hst]

/-! ## The chain -/

variable (init : State SessionKey) (keys : ℕ → SessionKey)

/-- The pushes of the first `n` blocks. -/
def pushed (keys : ℕ → SessionKey) (n : ℕ) : List (SessionKey × UInt64) :=
  (List.range n).map fun i => (keys i, 1)

omit [Codec SessionKey] in
lemma chain_succ (n : ℕ) :
    chain init keys (n + 1) = (executeBlock (chain init keys n) (keys n)).1 :=
  rfl

section Genesis

variable (hinit : init.pendingChange = none)
include hinit

omit [Codec SessionKey] in
/-- Along the chain from genesis, no change stays pending between blocks, and the block number
counts the blocks. -/
lemma chain_pendingChange (n : ℕ) :
    (chain init keys n).pendingChange = none ∧
      (chain init keys n).blockNumber = init.blockNumber + UInt64.ofNat n := by
  induction n with
  | zero => exact ⟨hinit, by simp [chain]⟩
  | succ n ih =>
    rw [chain_succ, executeBlock_eq _ _ ih.1]
    refine ⟨rfl, ?_⟩
    simp only [ih.2]
    rw [UInt64.ofNat_add, UInt64.ofNat_one, add_assoc]

omit [Codec SessionKey] in
/-- **The authorities are a sliding window.**  After block `n + 1` the module holds the last
`MAX_AUTHORITIES_SIZE` entries of the genesis authorities followed by `(key, 1)` for each
block's author. -/
theorem authorities_run (n : ℕ) :
    (chain init keys (n + 1)).authorities =
      (init.authorities ++ pushed keys (n + 1)).drop
        ((init.authorities ++ pushed keys n).length + 1 - maxAuthoritiesSize) := by
  -- every block enacts its push, so the authorities are the pushes folded into the window
  have hfold : ∀ m, (chain init keys m).authorities =
      (pushed keys m).foldl (Window.push maxAuthoritiesSize) init.authorities := by
    intro m
    induction m with
    | zero => rfl
    | succ m ih =>
      rw [chain_succ, executeBlock_eq _ _ (chain_pendingChange init keys hinit m).1]
      simp only [pushed, List.range_succ, List.map_append, List.map_singleton,
        List.foldl_append, List.foldl_cons, List.foldl_nil]
      rw [ih]
      rfl
  rw [hfold, pushed, List.range_succ, List.map_append, List.map_singleton,
    Window.foldl_push (by decide), ← List.append_assoc]
  rfl

/-- **Block `n + 1` signals the window it ends with**: the module's only digest item is the
change signal with delay 0 and the new authorities. -/
theorem blockLogs_run (n : ℕ) :
    (blockLogs init keys n : List (DigestItem Hash AuthorityId SealSignature)) =
      [depositLog (.authoritiesChangeSignal 0 (chain init keys (n + 1)).authorities)] := by
  have hpending := (chain_pendingChange init keys hinit n).1
  rw [blockLogs, chain_succ, executeBlock_eq _ _ hpending]
  rfl

end Genesis

end Module

end Crfg
end Yeeroot

import Yeeroot.Crfg.Module

/-!
# The node's CRFG authority set

`core/crfg` follows the runtime's authority changes through the digest.  On import,
`CrfgBlockImport::check_new_change` reads the first change item of a block's digest
(`CrfgChangeDigestItem::as_change`) and makes it a pending change whose authorities are
`aggregate_authorities` of the signalled list: each key once, with its weight increased for
every repetition.  The change goes into the `AuthoritySet`'s fork tree of standard changes,
and when a block is finalized (`environment::finalize_block`, `CrfgBlockImport::skip`),
`apply_standard_changes` enacts the pending change the finalized block reaches, which gives
the set its new authorities and the next set id.

The fork tree is substrate's `fork-tree` crate, which is not part of the repository.  It is a
parameter, `ForkTree`, and what the proofs take from it is its documented behaviour,
`ForkTree.Lawful`, on the trees of one chain: importing or finalizing at or below the last
finalized block is a `Revert`, importing a block a node already has is a `Duplicate`, and
otherwise `import` adds a leaf and `finalize_with_descendent_if` takes out a root that passes
its predicate.  `ForkChain`, the tree of one chain as a list, is one lawful fork tree.  The
forced changes of `check_new_change` are commented out in the source, so only standard
changes are ever added.

The main result, `crfg_authorities_follow_finality`, runs the runtime module over a chain of
distinct block hashes and the node over any schedule of imports and in-order finalizations of
that chain, with any lawful fork tree.  The fork tree never fails, and after block `f` is
finalized, the node's set id is `f` and its authorities are the aggregate of the runtime's
window after block `f`.
-/

namespace Yeeroot
namespace Crfg

open Scale Substrate Machine

/-- `GENERATED_MODULE_LOG_PREFIX` of `core/crfg`'s digest items. -/
def generatedModuleLogPrefix : UInt8 := 3

/-- `GENERATED_CHANGE_PREFIX`. -/
def generatedChangePrefix : UInt8 := 0

/-- `ScheduledChange`. -/
structure ScheduledChange (N AuthorityId : Type) where
  delay : N
  nextAuthorities : List (AuthorityId × UInt64)
deriving DecidableEq

/-! ## Reading the digest -/

section Digest

variable {Hash AuthorityId SealSignature N A : Type} [Codec N] [Codec A]

/-- `CrfgChangeDigestItem::as_change`: an `Other` item behind the module's two prefix bytes,
read as a delay and a list of weighted authorities. -/
def asChange : DigestItem Hash AuthorityId SealSignature → Option (ScheduledChange N A)
  | .other data =>
    if 4 ≤ data.length ∧ data[0]? = some generatedModuleLogPrefix ∧
        data[1]? = some generatedChangePrefix then do
      let (delay, input) ← (decode (data.drop 2) : Option (N × Bytes))
      let (nextAuthorities, _) ← (decode input : Option (List (A × UInt64) × Bytes))
      return ⟨delay, nextAuthorities⟩
    else none
  | _ => none

/-- **The node reads the runtime's change signal**, for a list of authorities the `u32` count
holds. -/
lemma asChange_depositLog [LawfulCodec A] (delay : UInt64) (next : List (A × UInt64))
    (hnext : next.length < 2 ^ 32) :
    asChange (depositLog (.authoritiesChangeSignal delay next) :
        DigestItem Hash AuthorityId SealSignature) = some ⟨delay, next⟩ := by
  have hlen : 4 ≤ (crfgLogIndex :: RawLog.encode (.authoritiesChangeSignal delay next)).length := by
    simp only [RawLog.encode, encode_pair, List.length_cons, List.length_append,
      encode_uint64_length]
    omega
  have hitem : 4 ≤ (crfgLogIndex :: RawLog.encode (.authoritiesChangeSignal delay next)).length ∧
      (crfgLogIndex :: RawLog.encode (.authoritiesChangeSignal delay next))[0]? =
        some generatedModuleLogPrefix ∧
      (crfgLogIndex :: RawLog.encode (.authoritiesChangeSignal delay next))[1]? =
        some generatedChangePrefix := ⟨hlen, rfl, rfl⟩
  rw [depositLog, asChange, if_pos hitem]
  have hnext' : (decode (encode next) : Option (List (A × UInt64) × Bytes)) = some (next, []) := by
    simpa using roundTrips_vec hnext []
  simp [RawLog.encode, hnext']

end Digest

/-! ## The authority set -/

/-- `aggregate_authorities`: each key once, in order of first appearance, its weight bumped
for every further appearance. -/
def aggregateAuthorities {AuthorityId : Type} [DecidableEq AuthorityId]
    (authorities : List (AuthorityId × UInt64)) : List (AuthorityId × UInt64) :=
  authorities.foldl (Tally.step (· + 1)) []

/-- `DelayKind`. -/
inductive DelayKind (N : Type) where
  | finalized
  | best (medianLastFinalized : N)
deriving DecidableEq

/-- `PendingChange`. -/
structure PendingChange (H N AuthorityId : Type) where
  nextAuthorities : List (AuthorityId × UInt64)
  delay : N
  canonHeight : N
  canonHash : H
  delayKind : DelayKind N
deriving DecidableEq

/-- `effective_number`: the block that enacts the change. -/
def PendingChange.effectiveNumber {H N AuthorityId : Type} [Add N]
    (change : PendingChange H N AuthorityId) : N :=
  change.canonHeight + change.delay

/-- The errors of `fork-tree`.  Its `Client` error, a failed ancestry test, does not arise:
ancestry is that of the node's chain (see `ForkTree`). -/
inductive ForkError where
  | duplicate
  | unfinalizedAncestor
  | revert
deriving DecidableEq

/-- `FinalizationResult`. -/
inductive FinalizationResult (V : Type) where
  | changed (data : Option V)
  | unchanged

/-- substrate's `fork-tree` crate, a git dependency of `core/crfg` from outside the repository:
a `ForkTree` of pending changes, whose state is `T`, with the operations the authority set
calls.  Each operation takes `is_descendent_of`, which the node answers from its chain; the
model follows one chain, so ancestry is fixed and not an argument. -/
structure ForkTree (T H N V : Type) where
  /-- `ForkTree::new()`. -/
  new : T
  /-- `iter()`: the nodes in pre-order, each parent before its children. -/
  iter : T → List (H × N × V)
  /-- The field `best_finalized_number`. -/
  bestFinalizedNumber : T → Option N
  /-- An assignment to `best_finalized_number`, as `chain_revert` makes it. -/
  setBestFinalizedNumber : T → Option N → T
  /-- `import(hash, number, data, is_descendent_of)`. -/
  «import» : T → H → N → V → Except ForkError T
  /-- `finalize_with_descendent_if(hash, number, is_descendent_of, predicate)`. -/
  finalizeWithDescendentIf : T → H → N → (V → Bool) → Except ForkError (FinalizationResult V × T)

/-- What `fork-tree` documents of its operations on the trees of one chain, each of which is
one path from its root (`OnePath`).  `new` is empty.  Importing or finalizing a block not above
the last finalized one is a `Revert`.  Importing a block above every node is a `Duplicate` when
a node has its hash, and otherwise adds it as a leaf below the last node.  Finalizing a block
at or above a root whose data passes `predicate` is an `UnfinalizedAncestor` when the root's
child is at or below the block too, and otherwise takes the root out. -/
structure ForkTree.Lawful {T H N V : Type} [LE N] (ft : ForkTree T H N V) (OnePath : T → Prop) :
    Prop where
  onePath_new : OnePath ft.new
  iter_new : ft.iter ft.new = []
  bestFinalizedNumber_new : ft.bestFinalizedNumber ft.new = none
  import_revert : ∀ t hash number data, (∃ best ∈ ft.bestFinalizedNumber t, number ≤ best) →
    ft.import t hash number data = .error .revert
  import_duplicate : ∀ t hash number data, OnePath t →
    (∀ best ∈ ft.bestFinalizedNumber t, ¬ number ≤ best) →
    (∀ node ∈ ft.iter t, ¬ number ≤ node.2.1) → hash ∈ (ft.iter t).map Prod.fst →
    ft.import t hash number data = .error .duplicate
  import_leaf : ∀ t hash number data, OnePath t →
    (∀ best ∈ ft.bestFinalizedNumber t, ¬ number ≤ best) →
    (∀ node ∈ ft.iter t, ¬ number ≤ node.2.1) → hash ∉ (ft.iter t).map Prod.fst →
    ∃ t', ft.import t hash number data = .ok t' ∧ OnePath t' ∧
      ft.iter t' = ft.iter t ++ [(hash, number, data)] ∧
      ft.bestFinalizedNumber t' = ft.bestFinalizedNumber t
  finalize_revert : ∀ t hash number predicate,
    (∃ best ∈ ft.bestFinalizedNumber t, number ≤ best) →
    ft.finalizeWithDescendentIf t hash number predicate = .error .revert
  finalize_unfinalizedAncestor : ∀ t hash number predicate rootHash rootNumber data child rest,
    OnePath t → (∀ best ∈ ft.bestFinalizedNumber t, ¬ number ≤ best) →
    ft.iter t = (rootHash, rootNumber, data) :: child :: rest → predicate data = true →
    rootNumber ≤ number → child.2.1 ≤ number →
    ft.finalizeWithDescendentIf t hash number predicate = .error .unfinalizedAncestor
  finalize_root : ∀ t hash number predicate rootHash rootNumber data rest, OnePath t →
    (∀ best ∈ ft.bestFinalizedNumber t, ¬ number ≤ best) →
    ft.iter t = (rootHash, rootNumber, data) :: rest → predicate data = true →
    rootNumber ≤ number → (∀ child ∈ rest.head?, ¬ child.2.1 ≤ number) →
    ∃ t', ft.finalizeWithDescendentIf t hash number predicate = .ok (.changed (some data), t') ∧
      OnePath t' ∧ ft.iter t' = rest ∧ ft.bestFinalizedNumber t' = some number

/-- `AuthoritySet`, its standard changes in a fork tree of state `T`. -/
structure AuthoritySet (T H N AuthorityId : Type) where
  currentAuthorities : List (AuthorityId × UInt64)
  setId : UInt64
  pendingStandardChanges : T
  pendingForcedChanges : List (PendingChange H N AuthorityId)

section Set

variable {T H N AuthorityId : Type} (ft : ForkTree T H N (PendingChange H N AuthorityId))

/-- `AuthoritySet::genesis`. -/
def AuthoritySet.genesis (initial : List (AuthorityId × UInt64)) : AuthoritySet T H N AuthorityId :=
  ⟨initial, 0, ft.new, []⟩

/-- `add_standard_change`: the change goes into the fork tree at its block, and an error of
the tree is returned. -/
def AuthoritySet.addStandardChange (set : AuthoritySet T H N AuthorityId)
    (pending : PendingChange H N AuthorityId) : Except ForkError (AuthoritySet T H N AuthorityId) :=
  (ft.import set.pendingStandardChanges pending.canonHash pending.canonHeight pending).map
    fun tree => { set with pendingStandardChanges := tree }

/-- The set after a change whose import into the tree succeeds. -/
lemma AuthoritySet.addStandardChange_ok {set : AuthoritySet T H N AuthorityId}
    {pending : PendingChange H N AuthorityId} {tree : T}
    (h : ft.import set.pendingStandardChanges pending.canonHash pending.canonHeight pending =
      .ok tree) :
    set.addStandardChange ft pending = .ok { set with pendingStandardChanges := tree } := by
  rw [AuthoritySet.addStandardChange, h]
  rfl

variable [LE N] [DecidableLE N] [Add N]

/-- `apply_standard_changes`: the change the finalized block enacts, if any, becomes the
current set, with the next set id; any standard change drops the forced ones. -/
def AuthoritySet.applyStandardChanges (set : AuthoritySet T H N AuthorityId) (finalizedHash : H)
    (finalizedNumber : N) : Except ForkError (AuthoritySet T H N AuthorityId) :=
  match ft.finalizeWithDescendentIf set.pendingStandardChanges finalizedHash finalizedNumber
      (fun change => decide (change.effectiveNumber ≤ finalizedNumber)) with
  | .error e => .error e
  | .ok (.changed change, tree) =>
    let set := { set with pendingStandardChanges := tree, pendingForcedChanges := [] }
    match change with
    | some change => .ok { set with currentAuthorities := change.nextAuthorities, setId := set.setId + 1 }
    | none => .ok set
  | .ok (.unchanged, tree) => .ok { set with pendingStandardChanges := tree }

end Set

/-! ## Import and finality -/

section Node

variable {Hash SealSignature T H AuthorityId : Type} [Codec AuthorityId] [DecidableEq AuthorityId]
  (ft : ForkTree T H UInt64 (PendingChange H UInt64 AuthorityId))

/-- `check_new_change`: the first change signal of the digest, as a standard change at the
block, with its authorities aggregated. -/
def checkNewChange (digest : List (DigestItem Hash AuthorityId SealSignature)) (number : UInt64)
    (hash : H) : Option (PendingChange H UInt64 AuthorityId) :=
  (digest.findSome? asChange).map fun (change : ScheduledChange UInt64 AuthorityId) =>
    ⟨aggregateAuthorities change.nextAuthorities, change.delay, number, hash, .finalized⟩

/-- The authority set's part of `import_block`: a change the block signals is added, and an
error of the fork tree fails the import. -/
def importBlock (set : AuthoritySet T H UInt64 AuthorityId)
    (digest : List (DigestItem Hash AuthorityId SealSignature)) (number : UInt64) (hash : H) :
    Except ForkError (AuthoritySet T H UInt64 AuthorityId) :=
  match checkNewChange digest number hash with
  | some change => set.addStandardChange ft change
  | none => .ok set

/-- The node following a chain: how many of its blocks are imported and finalized, and the
authority set. -/
structure Node (T H AuthorityId : Type) where
  imported : ℕ
  finalized : ℕ
  set : AuthoritySet T H UInt64 AuthorityId

/-- What happens next at the node: the next block is imported, or the next is finalized. -/
inductive Event where
  | importNext
  | finalizeNext
deriving DecidableEq

variable (digests : ℕ → List (DigestItem Hash AuthorityId SealSignature)) (hashes : ℕ → H)

/-- One event at the node for the chain whose block `i + 1` has hash `hashes i` and digest
`digests i`.  An error of the fork tree stops the node. -/
def nodeStep : Except ForkError (Node T H AuthorityId) → Event →
    Except ForkError (Node T H AuthorityId)
  | .error e, _ => .error e
  | .ok node, .importNext =>
    match importBlock ft node.set (digests node.imported) (UInt64.ofNat (node.imported + 1))
        (hashes node.imported) with
    | .error e => .error e
    | .ok set => .ok { node with imported := node.imported + 1, set := set }
  | .ok node, .finalizeNext =>
    match node.set.applyStandardChanges ft (hashes node.finalized)
        (UInt64.ofNat (node.finalized + 1)) with
    | .error e => .error e
    | .ok set => .ok { node with finalized := node.finalized + 1, set := set }

end Node

/-! ## The revert tool -/

/-- `chain_revert::get_authorities`: the set rebuilt from the header of block `number` alone,
with the first change signal of its digest as the current set, `number` as the set id, and a
new fork tree whose last finalized block is `number`.  The tool's `aggregate_authorities` is a
copy of the node's. -/
def getAuthorities {Hash SealSignature T H AuthorityId : Type} [Codec AuthorityId]
    [DecidableEq AuthorityId] (ft : ForkTree T H UInt64 (PendingChange H UInt64 AuthorityId))
    (digest : List (DigestItem Hash AuthorityId SealSignature))
    (number : UInt64) : Except String (AuthoritySet T H UInt64 AuthorityId) :=
  match (digest.findSome? asChange : Option (ScheduledChange UInt64 AuthorityId)) with
  | some v =>
    .ok ⟨aggregateAuthorities v.nextAuthorities, number, ft.setBestFinalizedNumber ft.new (some number),
      []⟩
  | none => .error "can't get ScheduledChange"

/-! ## Schedules -/

/-- How many of the first `t` events of a schedule are `e`. -/
def Event.count (events : ℕ → Event) (e : Event) (t : ℕ) : ℕ :=
  ((List.range t).map events).count e

lemma Event.count_succ (events : ℕ → Event) (e : Event) (t : ℕ) :
    Event.count events e (t + 1) = Event.count events e t + if events t = e then 1 else 0 := by
  simp only [Event.count, List.range_succ, List.map_append, List.map_singleton, List.count_append,
    List.count_singleton, beq_iff_eq]

/-- A schedule of `T` events that imports the chain block by block, while block numbers fit a
`u64`, and finalizes only imported blocks, one at a time in increasing height. -/
structure InOrder (events : ℕ → Event) (T : ℕ) : Prop where
  finalize_imported : ∀ t < T, events t = .finalizeNext →
    Event.count events .finalizeNext t < Event.count events .importNext t
  imports_fit : Event.count events .importNext T < 2 ^ 64

lemma Event.count_mono (events : ℕ → Event) (e : Event) {t T : ℕ} (h : t ≤ T) :
    Event.count events e t ≤ Event.count events e T := by
  induction T, h using Nat.le_induction with
  | base => exact le_rfl
  | succ T _ ih =>
    rw [Event.count_succ]
    omega

/-! ## The runtime's chain at the node -/

/-- The module at genesis: block 0, the genesis list of `GenesisConfig`, no change pending. -/
def genesisState {SessionKey : Type} (authorities : List (SessionKey × UInt64)) :
    State SessionKey :=
  ⟨0, authorities, none⟩

section Chain

variable {Hash SealSignature Tree H AuthorityId : Type} [Codec AuthorityId] [DecidableEq AuthorityId]
  (init : State AuthorityId) (keys : ℕ → AuthorityId) (hashes : ℕ → H)
  (ft : ForkTree Tree H UInt64 (PendingChange H UInt64 AuthorityId)) (OnePath : Tree → Prop)

/-- The change block `b + 1` of the chain leaves pending at the node. -/
def chainChange (b : ℕ) : PendingChange H UInt64 AuthorityId :=
  ⟨aggregateAuthorities (chain init keys (b + 1)).authorities, 0, UInt64.ofNat (b + 1), hashes b,
    .finalized⟩

/-- The pending chain of the node that has finalized `f` blocks and imported `i`: the changes of
blocks `f + 1, …, i`, in order. -/
def pendingChain (f i : ℕ) : List (H × UInt64 × PendingChange H UInt64 AuthorityId) :=
  (List.range' f (i - f)).map fun b => (hashes b, UInt64.ofNat (b + 1), chainChange init keys hashes b)

omit [Codec AuthorityId] in
lemma pendingChain_succ {f i : ℕ} (h : f ≤ i) :
    pendingChain init keys hashes f (i + 1) =
      pendingChain init keys hashes f i ++
        [(hashes i, UInt64.ofNat (i + 1), chainChange init keys hashes i)] := by
  rw [pendingChain, pendingChain, show i + 1 - f = (i - f) + 1 by omega, List.range'_concat,
    List.map_append, List.map_singleton, show f + 1 * (i - f) = i by omega]

omit [Codec AuthorityId] in
lemma pendingChain_cons {f i : ℕ} (h : f < i) :
    pendingChain init keys hashes f i =
      (hashes f, UInt64.ofNat (f + 1), chainChange init keys hashes f) ::
        pendingChain init keys hashes (f + 1) i := by
  rw [pendingChain, pendingChain, show i - f = (i - (f + 1)) + 1 by omega, List.range'_succ,
    List.map_cons]

omit [Codec AuthorityId] in
/-- The pending chain holds the changes of blocks `f + 1, …, i`, at their hashes and numbers. -/
lemma mem_pendingChain {f i : ℕ} {node : H × UInt64 × PendingChange H UInt64 AuthorityId} :
    node ∈ pendingChain init keys hashes f i ↔
      ∃ b, f ≤ b ∧ b < i ∧ node = (hashes b, UInt64.ofNat (b + 1), chainChange init keys hashes b) := by
  simp only [pendingChain, List.mem_map, List.mem_range'_1]
  constructor
  · rintro ⟨b, ⟨hfb, hbi⟩, rfl⟩
    exact ⟨b, hfb, by omega, rfl⟩
  · rintro ⟨b, hfb, hbi, rfl⟩
    exact ⟨b, ⟨hfb, by omega⟩, rfl⟩

omit [Codec AuthorityId] in
/-- Every pending change is below block `i + 1`. -/
lemma pendingChain_below {f i : ℕ} (hi : i + 1 < 2 ^ 64) :
    ∀ node ∈ pendingChain init keys hashes f i, ¬ UInt64.ofNat (i + 1) ≤ node.2.1 := by
  intro node hnode
  obtain ⟨b, -, hbi, rfl⟩ := (mem_pendingChain init keys hashes).mp hnode
  rw [UInt64.ofNat_le_iff_le (by simp only [UInt64.size]; omega)
    (by simp only [UInt64.size]; omega)]
  omega

omit [Codec AuthorityId] in
/-- With distinct block hashes, the hash of block `i + 1` is not among the pending ones. -/
lemma hash_not_mem_pendingChain (hhashes : Function.Injective hashes) {f i : ℕ} :
    hashes i ∉ (pendingChain init keys hashes f i).map Prod.fst := by
  intro hmem
  obtain ⟨node, hnode, hhash⟩ := List.mem_map.mp hmem
  obtain ⟨b, -, hbi, rfl⟩ := (mem_pendingChain init keys hashes).mp hnode
  exact absurd (hhashes hhash) (by omega)

/-- Block `n` is above the last finalized block of a node that has finalized `f < n` blocks. -/
lemma above_best {f n : ℕ} (hfn : f < n) (hn : n < 2 ^ 64) :
    ∀ best ∈ (if f = 0 then none else some (UInt64.ofNat f)), ¬ UInt64.ofNat n ≤ best := by
  intro best hb
  split_ifs at hb with h0
  · cases hb
  · rw [Option.mem_def, Option.some_inj] at hb
    rw [← hb, UInt64.ofNat_le_iff_le (by simp only [UInt64.size]; omega)
      (by simp only [UInt64.size]; omega)]
    omega

omit [Codec AuthorityId] in
/-- The change pending after the root, if any, is above the block the root is enacted at. -/
lemma pendingChain_child_above {f i : ℕ} (hlt : f < i) (hi : i < 2 ^ 64) :
    ∀ child ∈ (pendingChain init keys hashes (f + 1) i).head?,
      ¬ child.2.1 ≤ UInt64.ofNat (f + 1) := by
  intro child hc
  by_cases hnext : f + 1 < i
  · rw [pendingChain_cons init keys hashes hnext, List.head?_cons, Option.mem_def,
      Option.some_inj] at hc
    rw [← hc, UInt64.ofNat_le_iff_le (by simp only [UInt64.size]; omega)
      (by simp only [UInt64.size]; omega)]
    omega
  · have hnil : pendingChain init keys hashes (f + 1) i = [] := by
      simp [pendingChain, show i - (f + 1) = 0 by omega]
    rw [hnil] at hc
    cases hc

/-- The node's state along the chain: the changes of the imported blocks above the finalized
one are pending, in order, in a tree of one path, and the enacted change is that of the last
finalized block. -/
structure NodeInv (node : Node Tree H AuthorityId) : Prop where
  finalized_le : node.finalized ≤ node.imported
  imported_lt : node.imported < 2 ^ 64
  onePath : OnePath node.set.pendingStandardChanges
  pending : ft.iter node.set.pendingStandardChanges =
    pendingChain init keys hashes node.finalized node.imported
  best : ft.bestFinalizedNumber node.set.pendingStandardChanges =
    if node.finalized = 0 then none else some (UInt64.ofNat node.finalized)
  setId : node.set.setId = UInt64.ofNat node.finalized
  current : node.set.currentAuthorities =
    if node.finalized = 0 then init.authorities
    else aggregateAuthorities (chain init keys node.finalized).authorities
  forced : node.set.pendingForcedChanges = []

omit [Codec AuthorityId] [DecidableEq AuthorityId] in
/-- The window never holds more than `MAX_AUTHORITIES_SIZE` authorities after a block. -/
lemma chain_authorities_length (hinit : init.pendingChange = none) (n : ℕ) :
    (chain init keys (n + 1)).authorities.length ≤ maxAuthoritiesSize := by
  rw [authorities_run init keys hinit n]
  simp only [List.length_drop, List.length_append, pushed, List.length_map, List.length_range]
  omega

omit [DecidableEq AuthorityId] in
/-- The first change signal of each block's digest is the window the block ends with. -/
lemma findSome_asChange_blockLogs [LawfulCodec AuthorityId] (hinit : init.pendingChange = none)
    (b : ℕ) :
    (blockLogs init keys b : List (DigestItem Hash AuthorityId SealSignature)).findSome? asChange =
      some (⟨0, (chain init keys (b + 1)).authorities⟩ : ScheduledChange UInt64 AuthorityId) := by
  have hlen : (chain init keys (b + 1)).authorities.length < 2 ^ 32 := by
    have := chain_authorities_length init keys hinit b
    simp only [maxAuthoritiesSize] at this
    omega
  rw [blockLogs_run init keys hinit b, List.findSome?_cons, asChange_depositLog _ _ hlen]

/-- The node reads the change each block of the chain signals. -/
lemma checkNewChange_chain [LawfulCodec AuthorityId] (hinit : init.pendingChange = none) (b : ℕ) :
    checkNewChange (blockLogs init keys b : List (DigestItem Hash AuthorityId SealSignature))
      (UInt64.ofNat (b + 1)) (hashes b) = some (chainChange init keys hashes b) := by
  rw [checkNewChange, findSome_asChange_blockLogs init keys hinit b]
  rfl

omit [Codec AuthorityId] in
lemma nodeInv_genesis (hft : ft.Lawful OnePath) :
    NodeInv init keys hashes ft OnePath ⟨0, 0, AuthoritySet.genesis ft init.authorities⟩ :=
  ⟨le_rfl, by norm_num, hft.onePath_new, hft.iter_new, hft.bestFinalizedNumber_new, rfl, rfl, rfl⟩

/-- An import adds the block's change at the end of the pending chain: the block is above the
last finalized one and every pending one, and its hash is new. -/
lemma nodeInv_import [LawfulCodec AuthorityId] (hinit : init.pendingChange = none)
    (hft : ft.Lawful OnePath) (hhashes : Function.Injective hashes)
    {node : Node Tree H AuthorityId} (hinv : NodeInv init keys hashes ft OnePath node)
    (hfit : node.imported + 1 < 2 ^ 64) :
    ∃ set, importBlock ft node.set
        (blockLogs init keys node.imported : List (DigestItem Hash AuthorityId SealSignature))
        (UInt64.ofNat (node.imported + 1)) (hashes node.imported) = .ok set ∧
      NodeInv init keys hashes ft OnePath
        { node with imported := node.imported + 1, set := set } := by
  obtain ⟨hle, _, hpath, hpending, hbest, hset, hcurrent, hforced⟩ := hinv
  have hnorevert : ∀ best ∈ ft.bestFinalizedNumber node.set.pendingStandardChanges,
      ¬ UInt64.ofNat (node.imported + 1) ≤ best := by
    rw [hbest]
    exact above_best (by omega) hfit
  have habove : ∀ pending ∈ ft.iter node.set.pendingStandardChanges,
      ¬ UInt64.ofNat (node.imported + 1) ≤ pending.2.1 := by
    rw [hpending]
    exact pendingChain_below init keys hashes hfit
  have hfresh : hashes node.imported ∉ (ft.iter node.set.pendingStandardChanges).map Prod.fst := by
    rw [hpending]
    exact hash_not_mem_pendingChain init keys hashes hhashes
  obtain ⟨tree, himport, hpath', hiter, hbest'⟩ := hft.import_leaf _ _ _
    (chainChange init keys hashes node.imported) hpath hnorevert habove hfresh
  refine ⟨{ node.set with pendingStandardChanges := tree }, ?_,
    ⟨Nat.le_succ_of_le hle, hfit, hpath', ?_, hbest'.trans hbest, hset, hcurrent, hforced⟩⟩
  · simp only [importBlock, checkNewChange_chain init keys hashes hinit]
    exact AuthoritySet.addStandardChange_ok ft himport
  · rw [hiter, hpending, pendingChain_succ init keys hashes hle]

omit [Codec AuthorityId] in
/-- A finalization enacts the root change, the one of the block being finalized. -/
lemma nodeInv_finalize (hft : ft.Lawful OnePath) {node : Node Tree H AuthorityId}
    (hinv : NodeInv init keys hashes ft OnePath node) (hlt : node.finalized < node.imported) :
    ∃ set, node.set.applyStandardChanges ft (hashes node.finalized)
        (UInt64.ofNat (node.finalized + 1)) = .ok set ∧
      NodeInv init keys hashes ft OnePath
        { node with finalized := node.finalized + 1, set := set } := by
  obtain ⟨_, himported, hpath, hpending, hbest, hset, hcurrent, hforced⟩ := hinv
  have hnorevert : ∀ best ∈ ft.bestFinalizedNumber node.set.pendingStandardChanges,
      ¬ UInt64.ofNat (node.finalized + 1) ≤ best := by
    rw [hbest]
    exact above_best (by omega) (by omega)
  -- the root is the change of block `finalized + 1`, enacted at once as its delay is `0`
  obtain ⟨tree, hfinalize, hpath', hiter, hbest'⟩ := hft.finalize_root _ (hashes node.finalized) _
    (fun change : PendingChange H UInt64 AuthorityId =>
      decide (change.effectiveNumber ≤ UInt64.ofNat (node.finalized + 1)))
    _ _ _ _ hpath hnorevert (hpending.trans (pendingChain_cons init keys hashes hlt))
    (by simp [chainChange, PendingChange.effectiveNumber]) (UInt64.le_refl _)
    (pendingChain_child_above init keys hashes hlt himported)
  refine ⟨_, by rw [AuthoritySet.applyStandardChanges, hfinalize], ?_⟩
  refine ⟨hlt, himported, hpath', hiter, by simp [hbest'], ?_, by simp [chainChange], rfl⟩
  simp only [hset, UInt64.ofNat_add, UInt64.ofNat_one]

/-- Along a schedule that imports and finalizes in order, the node never fails: after `t`
events it has imported and finalized as many blocks as the schedule says, in `NodeInv`. -/
lemma nodeInv_run [LawfulCodec AuthorityId] (hinit : init.pendingChange = none)
    (hft : ft.Lawful OnePath) (hhashes : Function.Injective hashes)
    (events : ℕ → Event) (T : ℕ) (hsched : InOrder events T) (t : ℕ) (ht : t ≤ T) :
    ∃ node, run (nodeStep ft
        (blockLogs init keys : ℕ → List (DigestItem Hash AuthorityId SealSignature)) hashes)
        (.ok ⟨0, 0, AuthoritySet.genesis ft init.authorities⟩) events t = .ok node ∧
      node.imported = Event.count events .importNext t ∧
      node.finalized = Event.count events .finalizeNext t ∧
      NodeInv init keys hashes ft OnePath node := by
  refine run_invariant _ _ events
    (fun n (s : Except ForkError (Node Tree H AuthorityId)) => n ≤ T → ∃ node, s = .ok node ∧
      node.imported = Event.count events .importNext n ∧
      node.finalized = Event.count events .finalizeNext n ∧ NodeInv init keys hashes ft OnePath node)
    (fun _ _ _ => True) (fun _ => ⟨_, rfl, rfl, rfl, nodeInv_genesis init keys hashes ft OnePath hft⟩) ?_
    (fun _ => trivial) t ht
  intro n s ih _ hn
  obtain ⟨node, rfl, himported, hfinalized, hinv⟩ := ih (by omega)
  have himports := Event.count_succ events .importNext n
  have hfinalizes := Event.count_succ events .finalizeNext n
  have hfit := Event.count_mono events .importNext hn
  cases hev : events n with
  | importNext =>
    rw [hev] at himports hfinalizes
    simp only [if_true, reduceCtorEq, if_false] at himports hfinalizes
    have hlt : node.imported + 1 < 2 ^ 64 := by
      have := hsched.imports_fit
      omega
    obtain ⟨set, hset, hinv'⟩ := @nodeInv_import Hash SealSignature Tree H AuthorityId _ _ init keys
      hashes ft OnePath _ hinit hft hhashes _ hinv hlt
    exact ⟨_, by simp only [nodeStep, hset], by simp only; omega, by simp only; omega, hinv'⟩
  | finalizeNext =>
    rw [hev] at himports hfinalizes
    simp only [if_true, reduceCtorEq, if_false] at himports hfinalizes
    have hlt : node.finalized < node.imported := by
      have := hsched.finalize_imported n (by omega) hev
      omega
    obtain ⟨set, hset, hinv'⟩ := nodeInv_finalize init keys hashes ft OnePath hft hinv hlt
    exact ⟨_, by simp only [nodeStep, hset], by simp only; omega, by simp only; omega, hinv'⟩

/-- The revert tool rebuilds, from the header of block `b + 1` alone, the set the node holds
once it has finalized that block. -/
lemma getAuthorities_chain [LawfulCodec AuthorityId] (hinit : init.pendingChange = none) (b : ℕ) :
    getAuthorities ft (blockLogs init keys b : List (DigestItem Hash AuthorityId SealSignature))
        (UInt64.ofNat (b + 1)) =
      .ok ⟨aggregateAuthorities (chain init keys (b + 1)).authorities, UInt64.ofNat (b + 1),
        ft.setBestFinalizedNumber ft.new (some (UInt64.ofNat (b + 1))), []⟩ := by
  rw [getAuthorities, findSome_asChange_blockLogs init keys hinit b]

omit [Codec AuthorityId] [DecidableEq AuthorityId] in
/-- The window after block `n + 1` is the last `MAX_AUTHORITIES_SIZE` entries of the genesis
list followed by the pushes. -/
lemma chain_authorities_rtake (hinit : init.pendingChange = none) (n : ℕ) :
    (chain init keys (n + 1)).authorities =
      (init.authorities ++ pushed keys (n + 1)).rtake maxAuthoritiesSize := by
  have hlen : (init.authorities ++ pushed keys (n + 1)).length =
      (init.authorities ++ pushed keys n).length + 1 := by
    simp [pushed]
    omega
  rw [authorities_run init keys hinit n, List.rtake, hlen]

omit [Codec AuthorityId] [DecidableEq AuthorityId] in
/-- With a genesis list of weight one, every window has weight one. -/
lemma chain_weight_one (hinit : init.pendingChange = none)
    (hG : ∀ p ∈ init.authorities, p.2 = 1) (n : ℕ) :
    ∀ p ∈ (chain init keys (n + 1)).authorities, p.2 = 1 := by
  intro p hp
  rw [authorities_run init keys hinit n] at hp
  rcases List.mem_append.mp (List.mem_of_mem_drop hp) with hgen | hpush
  · exact hG p hgen
  · obtain ⟨i, -, rfl⟩ := List.mem_map.mp hpush
    rfl

end Chain

/-! ## Aggregation -/

/-- `(· + 1)` iterated on a `u64` from `1`. -/
lemma iterate_succ_one (n : ℕ) : (fun x : UInt64 => x + 1)^[n] 1 = UInt64.ofNat (n + 1) := by
  induction n with
  | zero => rfl
  | succ n ih =>
    rw [Function.iterate_succ_apply', ih, UInt64.ofNat_add (n + 1) 1, UInt64.ofNat_one]

/-- The distinct keys of a list, in order of first appearance, each weighted by its number of
appearances. -/
def distinctByOccurrence {AuthorityId : Type} [DecidableEq AuthorityId]
    (authorities : List (AuthorityId × UInt64)) : List (AuthorityId × UInt64) :=
  (authorities.map Prod.fst).eraseDups.map fun a =>
    (a, UInt64.ofNat ((authorities.map Prod.fst).count a))

/-- **Aggregating authorities of weight one** counts them. -/
lemma aggregateAuthorities_of_weight_one {AuthorityId : Type} [DecidableEq AuthorityId]
    (authorities : List (AuthorityId × UInt64)) (hw : ∀ p ∈ authorities, p.2 = 1) :
    aggregateAuthorities authorities = distinctByOccurrence authorities := by
  have hauth : authorities = (authorities.map Prod.fst).map fun a => (a, (1 : UInt64)) := by
    conv_lhs => rw [← List.map_id authorities]
    rw [List.map_map]
    exact List.map_congr_left fun p hp => Prod.ext rfl (hw p hp)
  rw [aggregateAuthorities, hauth, Tally.foldl_step_const, ← hauth, distinctByOccurrence]
  refine List.map_congr_left fun a ha => ?_
  have hpos : 0 < (authorities.map Prod.fst).count a :=
    List.count_pos_iff.mpr (List.mem_eraseDups.mp ha)
  rw [iterate_succ_one, Nat.sub_add_cancel hpos]

/-! ## A fork tree of one chain -/

/-- The fork tree of one chain as a list: its nodes from the root down, each the child of the
one before, and the number of the last finalized block.  Ancestry is by block number.  It is a
lawful `ForkTree` (`ForkChain.lawful`), the one the examples below run. -/
structure ForkChain (H N V : Type) where
  nodes : List (H × N × V)
  bestFinalizedNumber : Option N

section ForkChain

variable {H N V : Type} [DecidableEq H] [LE N] [DecidableLE N]

/-- Whether a block numbered `number` is at or below the last finalized one. -/
def ForkChain.reverts (t : ForkChain H N V) (number : N) : Bool :=
  t.bestFinalizedNumber.any fun best => decide (number ≤ best)

/-- Import: a revert at or below the last finalized block, a duplicate when a node has the
hash, and otherwise a new last node. -/
def ForkChain.import (t : ForkChain H N V) (hash : H) (number : N) (data : V) :
    Except ForkError (ForkChain H N V) :=
  if t.reverts number then .error .revert
  else if hash ∈ t.nodes.map Prod.fst then .error .duplicate
  else .ok { t with nodes := t.nodes ++ [(hash, number, data)] }

/-- Finalization of the block numbered `number`: a revert at or below the last finalized
block; a root at or below the block whose data passes `predicate` is taken out, unless its
child is at or below the block too; otherwise the nodes stay, as they are ancestors or
descendants of the block. -/
def ForkChain.finalizeWithDescendentIf (t : ForkChain H N V) (_ : H) (number : N)
    (predicate : V → Bool) : Except ForkError (FinalizationResult V × ForkChain H N V) :=
  if t.reverts number then .error .revert
  else
    match t.nodes with
    | (_, rootNumber, data) :: rest =>
      if predicate data ∧ rootNumber ≤ number then
        if rest.head?.any (fun child => decide (child.2.1 ≤ number)) then
          .error .unfinalizedAncestor
        else .ok (.changed (some data), ⟨rest, some number⟩)
      else .ok (.unchanged, { t with bestFinalizedNumber := some number })
    | [] => .ok (.unchanged, { t with bestFinalizedNumber := some number })

/-- The list as a `ForkTree`. -/
def ForkChain.tree : ForkTree (ForkChain H N V) H N V where
  new := ⟨[], none⟩
  iter := ForkChain.nodes
  bestFinalizedNumber := ForkChain.bestFinalizedNumber
  setBestFinalizedNumber t best := { t with bestFinalizedNumber := best }
  «import» := ForkChain.import
  finalizeWithDescendentIf := ForkChain.finalizeWithDescendentIf

omit [DecidableEq H] in
lemma ForkChain.reverts_iff {t : ForkChain H N V} {number : N} :
    t.reverts number = true ↔ ∃ best ∈ t.bestFinalizedNumber, number ≤ best := by
  cases hb : t.bestFinalizedNumber <;> simp [ForkChain.reverts, hb]

omit [DecidableEq H] in
lemma ForkChain.reverts_eq_false {t : ForkChain H N V} {number : N}
    (h : ∀ best ∈ t.bestFinalizedNumber, ¬ number ≤ best) : t.reverts number = false := by
  rw [← Bool.not_eq_true, ForkChain.reverts_iff]
  rintro ⟨best, hb, hle⟩
  exact h best hb hle

/-- Every list is one path, and the list's operations have `fork-tree`'s documented
behaviour. -/
lemma ForkChain.lawful :
    (ForkChain.tree : ForkTree (ForkChain H N V) H N V).Lawful fun _ => True where
  onePath_new := trivial
  iter_new := rfl
  bestFinalizedNumber_new := rfl
  import_revert _ _ _ _ hrevert := if_pos (ForkChain.reverts_iff.mpr hrevert)
  import_duplicate t hash number data _ hbest _ hdup := by
    dsimp only [ForkChain.tree] at hbest hdup ⊢
    rw [ForkChain.import, ForkChain.reverts_eq_false hbest, if_neg Bool.false_ne_true, if_pos hdup]
  import_leaf t hash number data _ hbest _ hfresh := by
    dsimp only [ForkChain.tree] at hbest hfresh ⊢
    refine ⟨{ t with nodes := t.nodes ++ [(hash, number, data)] }, ?_, trivial, rfl, rfl⟩
    rw [ForkChain.import, ForkChain.reverts_eq_false hbest, if_neg Bool.false_ne_true,
      if_neg hfresh]
  finalize_revert _ _ _ _ hrevert := if_pos (ForkChain.reverts_iff.mpr hrevert)
  finalize_unfinalizedAncestor t hash number predicate _ rootNumber data child rest _ hbest hnodes
      hpred hroot hchild := by
    dsimp only [ForkChain.tree] at hbest hnodes ⊢
    rw [ForkChain.finalizeWithDescendentIf, ForkChain.reverts_eq_false hbest, hnodes]
    simp [hpred, hroot, hchild]
  finalize_root t hash number predicate _ rootNumber data rest _ hbest hnodes hpred hroot
      hchild := by
    dsimp only [ForkChain.tree] at hbest hnodes ⊢
    -- the root's child, if any, is above the block, so the root is taken out
    have hnochild : rest.head?.any (fun child => decide (child.2.1 ≤ number)) = false := by
      cases rest with
      | nil => rfl
      | cons child _ => simpa using hchild child rfl
    refine ⟨⟨rest, some number⟩, ?_, trivial, rfl, rfl⟩
    rw [ForkChain.finalizeWithDescendentIf, ForkChain.reverts_eq_false hbest, hnodes]
    simp only [Bool.false_eq_true, if_false, hpred, hroot, and_self, if_true, hnochild]

end ForkChain

/-! ## The authority set follows finality -/

section Finality

variable {Hash SealSignature H AuthorityId : Type} [Codec AuthorityId] [LawfulCodec AuthorityId]
  [DecidableEq AuthorityId]

theorem crfg_authorities_follow_finality (G : List (AuthorityId × UInt64)) (keys : ℕ → AuthorityId)
    (hashes : ℕ → H) (hhashes : Function.Injective hashes) {Tree : Type}
    (ft : ForkTree Tree H UInt64 (PendingChange H UInt64 AuthorityId)) (OnePath : Tree → Prop)
    (hft : ft.Lawful OnePath) (events : ℕ → Event) (T : ℕ) (hsched : InOrder events T) :
    (∀ n, (chain (genesisState G) keys (n + 1)).authorities =
        (G ++ pushed keys (n + 1)).rtake maxAuthoritiesSize ∧
      (blockLogs (genesisState G) keys n : List (DigestItem Hash AuthorityId SealSignature)) =
        [depositLog (.authoritiesChangeSignal 0 (chain (genesisState G) keys (n + 1)).authorities)] ∧
      (blockLogs (genesisState G) keys n : List (DigestItem Hash AuthorityId SealSignature)).findSome?
          asChange =
        some (⟨0, (chain (genesisState G) keys (n + 1)).authorities⟩ :
          ScheduledChange UInt64 AuthorityId)) ∧
    ∀ t ≤ T, ∃ node,
      run (nodeStep ft (blockLogs (genesisState G) keys :
          ℕ → List (DigestItem Hash AuthorityId SealSignature)) hashes)
        (.ok ⟨0, 0, AuthoritySet.genesis ft G⟩) events t = .ok node ∧
      node.finalized = Event.count events .finalizeNext t ∧
      node.set.setId = UInt64.ofNat node.finalized ∧
      ∀ k, node.finalized = k + 1 →
        node.set.currentAuthorities =
          aggregateAuthorities (chain (genesisState G) keys (k + 1)).authorities ∧
        ((∀ p ∈ G, p.2 = 1) → node.set.currentAuthorities =
          distinctByOccurrence (chain (genesisState G) keys (k + 1)).authorities) ∧
        getAuthorities ft (blockLogs (genesisState G) keys k :
            List (DigestItem Hash AuthorityId SealSignature)) (UInt64.ofNat (k + 1)) =
          .ok { node.set with
            pendingStandardChanges := ft.setBestFinalizedNumber ft.new (some (UInt64.ofNat (k + 1))) } := by
  have hinit : (genesisState G).pendingChange = none := rfl
  refine ⟨fun n => ⟨chain_authorities_rtake _ keys hinit n, blockLogs_run _ keys hinit n,
    findSome_asChange_blockLogs _ keys hinit n⟩, ?_⟩
  intro t ht
  obtain ⟨node, hrun, -, hfinalized, hinv⟩ :=
    nodeInv_run _ keys hashes ft OnePath hinit hft hhashes events T hsched t ht
  refine ⟨node, hrun, hfinalized, hinv.setId, ?_⟩
  intro k hk
  -- the finalized block is `k + 1`, so the enacted change is that of its window
  have hcurrent : node.set.currentAuthorities =
      aggregateAuthorities (chain (genesisState G) keys (k + 1)).authorities := by
    rw [hinv.current, if_neg (by omega), hk]
  refine ⟨hcurrent, fun hG => ?_, ?_⟩
  · rw [hcurrent, aggregateAuthorities_of_weight_one _ (chain_weight_one _ keys hinit hG k)]
  · rw [getAuthorities_chain _ keys ft hinit k]
    simp only [hcurrent, hinv.setId, hk, hinv.forced]

/-- Block 1 imported and finalized, then block 2 imported and finalized, each authored by
key `7`, with the fork tree of one chain. -/
theorem crfg_authorities_follow_finality_two_blocks :
    InOrder (fun t => if t % 2 = 0 then .importNext else .finalizeNext) 4 ∧
      ∃ node, run (nodeStep ForkChain.tree (blockLogs (genesisState []) (fun _ => (7 : UInt8)) :
          ℕ → List (DigestItem Unit UInt8 Unit)) id)
        (.ok ⟨0, 0, AuthoritySet.genesis ForkChain.tree []⟩)
        (fun t => if t % 2 = 0 then .importNext else .finalizeNext) 4 = .ok node ∧
      node.set.setId = 2 ∧ node.set.currentAuthorities = [(7, 2)] := by
  have hsched : InOrder (fun t => if t % 2 = 0 then .importNext else .finalizeNext) 4 :=
    ⟨by decide, by decide⟩
  obtain ⟨-, hnode⟩ := @crfg_authorities_follow_finality Unit Unit ℕ UInt8 _ _ _ []
    (fun _ => 7) id Function.injective_id _ ForkChain.tree (fun _ => True) ForkChain.lawful _ 4
    hsched
  obtain ⟨node, hrun, hfinalized, hset, hcurrent⟩ := hnode 4 le_rfl
  have htwo : node.finalized = 1 + 1 := by
    rw [hfinalized]
    decide
  obtain ⟨-, hcount, -⟩ := hcurrent 1 htwo
  refine ⟨hsched, node, hrun, by rw [hset, htwo]; rfl, ?_⟩
  rw [hcount (fun _ h => by cases h)]
  decide

/-- A genesis entry of weight other than one keeps its weight: with `G = [(1, 5)]` and block 1
authored by key `2`, the node enacts `[(1, 5), (2, 1)]` after finalizing block 1, while the
keys of the window counted by occurrence are `[(1, 1), (2, 1)]`. -/
theorem crfg_genesis_weight_kept :
    ∃ node, run (nodeStep ForkChain.tree (blockLogs (genesisState [((1 : UInt8), (5 : UInt64))])
          (fun _ => (2 : UInt8)) : ℕ → List (DigestItem Unit UInt8 Unit)) (fun _ => ()))
        (.ok ⟨0, 0, AuthoritySet.genesis ForkChain.tree [(1, 5)]⟩)
        (fun t => if t = 0 then .importNext else .finalizeNext) 2 = .ok node ∧
      node.finalized = 1 ∧ node.set.currentAuthorities = [(1, 5), (2, 1)] ∧
      distinctByOccurrence (chain (genesisState [((1 : UInt8), (5 : UInt64))])
        (fun _ => (2 : UInt8)) 1).authorities = [(1, 1), (2, 1)] :=
  ⟨_, rfl, rfl, by decide +kernel, by decide +kernel⟩

end Finality

end Crfg
end Yeeroot

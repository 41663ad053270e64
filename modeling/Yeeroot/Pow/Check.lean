import Yeeroot.Pow.Verifier
import Yeeroot.Sharding.Readers
import Yeeroot.Lib.BigEndian
import Yeeroot.Lib.Merkle

/-!
# The PoW verifier

`PowVerifier::verify` (`core/consensus/pow/src/verifier.rs`) accepts a header from the network
when `check_header` accepts it and the relay proof and the body pass.  `check_header` takes the
last digest item off the header, reads it as the PoW seal with `as_pow_seal`, and checks, in
this order, the fork id of the seal (`check_fork_id`, against `FORK_CONF`), its target
(`check_pow_target`, against `calc_pow_target`), the sharding digests (`check_shard_info`) and
the work proof (`check_work_proof`).

`calc_pow_target` (`pow.rs`) is the difficulty rule: the genesis target at block 1, the
parent's target between adjustments, and at a block `n` with `(n - 1) % adj = 0` the parent's
target divided by the expected time of `adj` blocks and multiplied by the time since the seal
of block `n - adj`, or the genesis target when the product overflows (`retarget`).

What the node takes from substrate and from other crates is a parameter of `Verifier`: the
client's header lookups, the header hash, the hash of a multi-mining source, Blake2, and
`merkle_light`'s proof validation.  The whole of `merkle_light`, as the switch also uses it, is
`MerkleLight`: its root, `gen_proof` and `validate`, with the documented behaviour
(`MerkleLight.Lawful`) that the agreement of switch and node rests on.  The relay-proof and
body checks of `verify`, which read `MultiLayerProof`s and foreign chains, are one parameter
of `verify`.  Integer arithmetic is
that of a release build: a `u16` shift takes its amount modulo 16 and products wrap.
-/

namespace Yeeroot
namespace Pow

open Scale Substrate Rust Sharding Readers

/-! ## The node's chain parameters and headers -/

/-- `Context`: the PoW parameters the runtime fixes at genesis. -/
structure Context where
  genesisPowTarget : PowTarget
  genesisPowTargetAdj : UInt64
  genesisTargetBlockTime : UInt64
  genesisShardCount : UInt16
  genesisScaleOutObserveBlocks : UInt64

/-- A header: its number, its parent's hash and its digest.  Its roots enter only through its
hash. -/
structure Header (AuthorityIdFor SealSignature : Type) where
  number : UInt64
  parentHash : H256
  digest : List (DigestItem H256 AuthorityIdFor SealSignature)

/-- `FORK_CONF`: for a chain spec and a shard, the block after which the seal carries a fork
id, and the id.  The table's block hashes are not read by the code and are left out. -/
def forkConf : List ((String × UInt16) × (UInt64 × UInt32)) :=
  [(("mainnet", 0), (143459, 1)), (("mainnet", 1), (143514, 1)), (("mainnet", 2), (143501, 1)),
    (("mainnet", 3), (141721, 1))]

/-- `MAX_EXTRA_DATA_LENGTH`. -/
def maxExtraDataLength : ℕ := 32

/-- The verifier's view of the node: its configuration, the client's header lookups, and the
hash functions and proof validation it calls. -/
structure Verifier (AuthorityIdFor SealSignature AccountId : Type) where
  chainSpecId : String
  shardExtra : ShardExtra AccountId
  context : Context
  /-- `client.header(BlockId::hash(h))`. -/
  headerByHash : H256 → Option (Header AuthorityIdFor SealSignature)
  /-- `client.header(BlockId::number(n))`, on the node's best chain. -/
  headerByNumber : UInt64 → Option (Header AuthorityIdFor SealSignature)
  /-- `Header::hash`. -/
  hash : Header AuthorityIdFor SealSignature → H256
  /-- `Hashing::hash_of(&(merkle_root, nonce, extra_data))`. -/
  hashOfSource : H256 → UInt64 → ExtraData → H256
  /-- `BlakeTwo256::hash`. -/
  blake2 : Bytes → H256
  /-- `merkle_light`'s `Proof::new(lemma, path).validate::<MiningAlgorithm>()`. -/
  validate : List H256 → List Bool → Bool

/-- `PowTarget::from(bytes)`: the bytes read big-endian. -/
def powTargetFrom (bytes : Bytes) : PowTarget :=
  ⟨BigEndian.value bytes % 2 ^ (8 * 32), Nat.mod_lt _ (by norm_num)⟩

/-- The panic of `%` on a zero divisor. -/
def Panic.remainderByZero : Panic := ⟨"attempt to calculate the remainder with a divisor of zero"⟩

/-- The panic of `U256` division by zero. -/
def Panic.divisionByZero : Panic := ⟨"division by zero"⟩

/-- `format!("{:#x}", hash)`: `0x` and the bytes in lower-case hex, as `H256`'s `Debug`
writes them. -/
def hexString (bytes : Bytes) : String :=
  "0x" ++ String.join (bytes.map fun b => String.ofList [Nat.digitChar (b.toNat / 16), Nat.digitChar (b.toNat % 16)])

/-! ## Merkle proofs of multi-mining -/

/-- `CompactMerkleProof`: the nodes between a leaf and the root, the leaf, the root, and the
leaf's index among `count` leaves. -/
structure CompactMerkleProof where
  proof : List H256
  item : H256
  root : H256
  num : UInt16
  count : UInt16
deriving DecidableEq

/-- `OriginalMerkleProof`: `merkle_light`'s `Proof`, its lemma from the leaf up to the root and
its path of flags, with the leaf's index and the leaf count. -/
structure OriginalMerkleProof where
  «lemma» : List H256
  path : List Bool
  num : UInt16
  count : UInt16
deriving DecidableEq

/-- `log2` of `pow.rs`, the loop of `sharding_primitives::utils::log2`. -/
def log2 (n : UInt16) : UInt16 := Sharding.log2 n

/-- `pow2` of `pow.rs`: `1u16 << n`. -/
def pow2 (n : UInt16) : UInt16 := Sharding.pow2 n

/-- The path loop of `parse_original`: `height` times, whether the index is even, then halve it. -/
def pathLoop : ℕ → UInt16 → List Bool
  | 0, _ => []
  | height + 1, tmpNum => (tmpNum % 2 == 0) :: pathLoop height (tmpNum / 2)

/-- `parse_original`: a compact proof of a leaf below a power-of-two count, with as many nodes
as the tree is high, becomes the lemma `item, proof…, root` and the path of the index. -/
def parseOriginal (cmp : CompactMerkleProof) : Except String OriginalMerkleProof :=
  let num := cmp.num
  let count := cmp.count
  if count ≤ num then .error ("Invalid num: " ++ toString num)
  else
    let height := log2 count
    if pow2 height ≠ count then .error ("Invalid count: " ++ toString count)
    else if cmp.proof.length ≠ height.toNat then
      .error ("Invalid proof size: " ++ toString cmp.proof.length ++ ", expected: " ++ toString height)
    else .ok ⟨cmp.item :: (cmp.proof ++ [cmp.root]), pathLoop height.toNat num, num, count⟩

/-- `From<OriginalMerkleProof> for CompactMerkleProof`: the lemma's first entry is the item
and its last the root (`Proof::item` and `Proof::root` unwrap them), and the entries between,
`lemma[1..len - 1]`, are the proof. -/
def CompactMerkleProof.ofOriginal (omp : OriginalMerkleProof) : Except Panic CompactMerkleProof :=
  match omp.«lemma».head?, omp.«lemma».getLast? with
  | some item, some root =>
    .ok ⟨(omp.«lemma».drop 1).take (omp.«lemma».length - 2), item, root, omp.num, omp.count⟩
  | _, _ => .error Panic.unwrapNone

/-- `MiningAlgorithm::node`: the hash of the two children's bytes, left then right; its `leaf`
is the identity. -/
def miningNode (blake2 : Bytes → H256) (left right : H256) : H256 :=
  blake2 (left.bytes ++ right.bytes)

/-- `merkle_light`'s `MerkleTree` over `MiningAlgorithm`, as the switch builds it with
`MerkleTree::from_iter` and both sides use its proofs.  The crate is a dependency from outside
the repository, so its three operations are parameters, and what the proofs take from it is
`MerkleLight.Lawful`. -/
structure MerkleLight where
  /-- `MerkleTree::from_iter(leaves).root()`. -/
  root : List H256 → H256
  /-- `gen_proof(i)` of the tree over the leaves: the proof's lemma and path, or the panic of
  its `assert!(i < self.leafs)`. -/
  genProof : List H256 → ℕ → Except Panic (List H256 × List Bool)
  /-- `Proof::new(lemma, path).validate::<MiningAlgorithm>()`. -/
  validate : List H256 → List Bool → Bool

/-- What `merkle_light` documents of a tree of `2 ^ height` leaves, and the tests
`test_merkle_root` and `test_merkle_proof` of `pow.rs` pin down.  The proof of leaf `i` has
the leaf, one sibling per level and the root as its lemma; its path says at each level
whether the node is a left child, which is whether bit `k` of `i` is `0`.  And `validate`
accepts every proof `gen_proof` makes. -/
structure MerkleLight.Lawful (ml : MerkleLight) : Prop where
  genProof_ok : ∀ height (leaves : List H256), leaves.length = 2 ^ height → ∀ i < 2 ^ height,
    ∃ siblings : List H256, siblings.length = height ∧
      ml.genProof leaves i =
        .ok (leaves.getD i default :: (siblings ++ [ml.root leaves]), Merkle.path height i)
  validate_genProof : ∀ height (leaves : List H256), leaves.length = 2 ^ height →
    ∀ i nodes path, ml.genProof leaves i = .ok (nodes, path) → ml.validate nodes path = true

/-! ## Compact proofs -/

/-- The path `parse_original` reads off an index is the path of the index in the tree. -/
lemma pathLoop_eq_path (height : ℕ) (num : UInt16) :
    pathLoop height num = Merkle.path height num.toNat := by
  induction height generalizing num with
  | zero => rfl
  | succ height ih =>
    have hbit : (num % 2 == 0) = (num.toNat % 2 == 0) := by
      simp [← UInt16.toNat_inj]
    rw [pathLoop, ih, Merkle.path, Merkle.path, List.range_succ_eq_map, List.map_cons,
      List.map_map, hbit, UInt16.toNat_div]
    simp [Function.comp_def, Nat.div_div_eq_div_mul, pow_succ']

/-- A tree of fewer than `16` levels has a leaf count that a `u16` holds. -/
lemma toNat_ofNat_two_pow {height : ℕ} (hh : height < 16) :
    (UInt16.ofNat (2 ^ height)).toNat = 2 ^ height :=
  UInt16.toNat_ofNat_of_lt' (lt_of_lt_of_le (Nat.pow_lt_pow_right (by norm_num) hh) (by rfl))

lemma toNat_ofNat_height {height : ℕ} (hh : height < 16) : (UInt16.ofNat height).toNat = height :=
  UInt16.toNat_ofNat_of_lt' (lt_trans hh (by decide))

lemma log2_two_pow {height : ℕ} (hh : height < 16) :
    log2 (UInt16.ofNat (2 ^ height)) = UInt16.ofNat height := by
  have hne : UInt16.ofNat (2 ^ height) ≠ 0 := by
    rw [ne_eq, ← UInt16.toNat_inj, toNat_ofNat_two_pow hh]
    simp
  apply UInt16.toNat_inj.mp
  rw [log2, Sharding.log2_toNat _ hne, toNat_ofNat_two_pow hh, Nat.log2_two_pow,
    toNat_ofNat_height hh]

lemma pow2_ofNat {height : ℕ} (hh : height < 16) :
    pow2 (UInt16.ofNat height) = UInt16.ofNat (2 ^ height) := by
  apply UInt16.toNat_inj.mp
  rw [pow2, Sharding.pow2_toNat _ (by rw [toNat_ofNat_height hh]; exact hh), toNat_ofNat_height hh,
    toNat_ofNat_two_pow hh]

/-- `parse_original` of a proof as long as the tree of `count = 2 ^ height` leaves is high:
the lemma is rebuilt around the proof, and the path read off the index. -/
lemma parseOriginal_eq {cmp : CompactMerkleProof} {height : ℕ} (hh : height < 16)
    (hcount : cmp.count = UInt16.ofNat (2 ^ height)) (hnum : cmp.num.toNat < 2 ^ height)
    (hlen : cmp.proof.length = height) :
    parseOriginal cmp =
      .ok ⟨cmp.item :: (cmp.proof ++ [cmp.root]), pathLoop height cmp.num, cmp.num, cmp.count⟩ := by
  have hnum' : ¬ cmp.count ≤ cmp.num := by
    rw [UInt16.le_iff_toNat_le, hcount, toNat_ofNat_two_pow hh]
    omega
  rw [parseOriginal, if_neg hnum']
  simp only [hcount, log2_two_pow hh, pow2_ofNat hh, ne_eq, not_true_eq_false, if_false, hlen,
    toNat_ofNat_height hh]

/-- A list of two entries or more is its first entry, the entries between, and its last. -/
lemma eq_head_between_last {l : List H256} {item root : H256} (hhead : l.head? = some item)
    (hlast : l.getLast? = some root) (hlen : 2 ≤ l.length) :
    item :: ((l.drop 1).take (l.length - 2) ++ [root]) = l := by
  match l, hhead, hlen with
  | a :: rest, hhead, hlen =>
    have ha : a = item := Option.some.inj hhead
    have hne : rest ≠ [] := by
      rintro rfl
      simp at hlen
    rw [List.getLast?_cons, List.getLast?_eq_some_getLast hne, Option.getD_some] at hlast
    subst ha
    rw [← Option.some.inj hlast, List.drop_one, List.tail_cons, List.length_cons,
      show rest.length + 1 - 2 = rest.length - 1 by omega, ← List.dropLast_eq_take,
      List.dropLast_append_getLast hne]

/-- `parse_original` undoes the conversion of a proof of the right size and path. -/
lemma parseOriginal_ofOriginal {omp : OriginalMerkleProof} {cmp : CompactMerkleProof}
    {height : ℕ} (h : CompactMerkleProof.ofOriginal omp = .ok cmp) (hh : height < 16)
    (hcount : omp.count = UInt16.ofNat (2 ^ height)) (hnum : omp.num.toNat < 2 ^ height)
    (hlen : omp.«lemma».length = height + 2) (hpath : omp.path = pathLoop height omp.num) :
    parseOriginal cmp = .ok omp := by
  unfold CompactMerkleProof.ofOriginal at h
  split at h
  · next item root hhead hlast =>
    cases h
    rw [parseOriginal_eq hh hcount hnum (by simp [hlen]),
      eq_head_between_last hhead hlast (by omega), ← hpath]
  · cases h

/-- The conversion undoes `parse_original`. -/
lemma ofOriginal_parseOriginal {cmp : CompactMerkleProof} {omp : OriginalMerkleProof}
    (h : parseOriginal cmp = .ok omp) : CompactMerkleProof.ofOriginal omp = .ok cmp := by
  unfold parseOriginal at h
  dsimp only at h
  split_ifs at h
  cases h
  have hlast : (cmp.item :: (cmp.proof ++ [cmp.root])).getLast? = some cmp.root := by
    rw [← List.cons_append, List.getLast?_concat]
  simp [CompactMerkleProof.ofOriginal, hlast]

section Verify

variable {AuthorityIdFor SealSignature AccountId AuthorityId : Type} [Codec AccountId]
  [Codec AuthorityId]
  (v : Verifier AuthorityIdFor SealSignature AccountId)

/-! ## `calc_pow_target` -/

/-- The adjustment of `calc_pow_target` at a block whose ancestor `adj` blocks back was
sealed at `lastTime`: the time since then, over the expected time of `blockGap` blocks,
scales the current target; an overflowing product gives the genesis target. -/
def retarget (context : Context) (currPowTarget : PowTarget) (blockGap lastTime timestamp : UInt64) :
    Except Panic PowTarget :=
  if timestamp < lastTime then
    .error ⟨"timestamp:" ++ toString timestamp ++ " < last_time: " ++ toString lastTime⟩
  else
    let timeGap := timestamp - lastTime
    let expectedGap := context.genesisTargetBlockTime * 1000 * blockGap
    if expectedGap = 0 then .error Panic.divisionByZero
    else
      let product := currPowTarget.val / expectedGap.toNat * timeGap.toNat
      -- `overflowing_mul`: an overflow falls back to the genesis target
      if h : product < 2 ^ (8 * 32) then .ok ⟨product, h⟩ else .ok context.genesisPowTarget

variable (AuthorityId) in
/-- `calc_pow_target` for a header and the timestamp of its seal; the seals it reads are of
the authority type `AuthorityId`. -/
def calcPowTarget (header : Header AuthorityIdFor SealSignature) (timestamp : UInt64) :
    Except Panic PowTarget :=
  let nextNum := header.number
  let genesisPowTarget := v.context.genesisPowTarget
  let adj := v.context.genesisPowTargetAdj
  match v.headerByHash header.parentHash with
  | none => .error (Panic.expect "parent block must exist for sealer; qed")
  | some currHeader =>
    if nextNum = 1 then .ok genesisPowTarget
    else if adj = 0 then .error Panic.remainderByZero
    else if (nextNum - 1) % adj ≠ 0 then
      -- not on adjustment: the parent's target
      (lastPowSeal currHeader.digest : Except Panic (Option (PowSeal AuthorityId H256))).map
        fun powSeal => (powSeal.map PowSeal.powTarget).getD genesisPowTarget
    else
      match (lastPowSeal currHeader.digest : Except Panic (Option (PowSeal AuthorityId H256))) with
      | .error p => .error p
      | .ok none => .error (Panic.expect "Seal must exist when adjustment comes; qed")
      | .ok (some currSeal) =>
        match v.headerByNumber (nextNum - adj) with
        | none => .error (Panic.expect "parent block must exist for sealer; qed")
        | some ancestorHeader =>
          match (lastPowSeal ancestorHeader.digest : Except Panic (Option (PowSeal AuthorityId H256))) with
          | .error p => .error p
          | .ok none => .error ⟨"can't get PowSeal in pre-block's header"⟩
          | .ok (some ancestorSeal) =>
            retarget v.context currSeal.powTarget adj ancestorSeal.timestamp timestamp

/-! ## The checks of `check_header` -/

/-- `check_fork_id`: the seal's fork id must be the last one `FORK_CONF` gives this chain and
shard below the header's number. -/
def checkForkId (header : Header AuthorityIdFor SealSignature) (powSeal : PowSeal AuthorityId H256) :
    Except String Unit :=
  let expectForkId := (forkConf.filterMap fun ((confChainSpecId, confShardNum), (blockNumber, forkId)) =>
    if confChainSpecId = v.chainSpecId ∧ confShardNum = v.shardExtra.shardNum ∧
        blockNumber < header.number then some forkId else none).getLast?
  if powSeal.extra.forkId = expectForkId then .ok () else .error "Invalid fork id"

/-- `check_pow_target`: the seal's target must be the one `calc_pow_target` computes. -/
def checkPowTarget (header : Header AuthorityIdFor SealSignature) (powSeal : PowSeal AuthorityId H256) :
    Except Panic (Except String Unit) :=
  (calcPowTarget AuthorityId v header powSeal.timestamp).map fun powTarget =>
    if powSeal.powTarget ≠ powTarget then .error "check_pow_target failed, pow target not match."
    else .ok ()

/-- `check_shard_info` on a header: the header's shard marker must exist before the parent is
fetched. -/
def checkShardInfoAt (header : Header AuthorityIdFor SealSignature) : Except Panic (Except String Unit) :=
  match (lastFilterMap asShardingInfo header.digest : Option (UInt16 × UInt16)) with
  | none => .error (Panic.expect "shard info must exist")
  | some _ =>
    match v.headerByHash header.parentHash with
    | none => .error (Panic.expect "parent header must exist.")
    | some parent =>
      checkShardInfo parent.digest header.digest header.number
        v.context.genesisScaleOutObserveBlocks v.shardExtra

/-- The seal as a digest item, `pow_seal`, and the hash of the header it seals. -/
def sealedHash (header : Header AuthorityIdFor SealSignature) (powSeal : PowSeal AuthorityId H256) :
    Except Panic (DigestItem H256 AuthorityIdFor SealSignature × H256) :=
  (encodePowSeal powSeal).map fun sealBytes =>
    (.consensus yeePowEngineId sealBytes,
      v.hash { header with digest := header.digest ++ [.consensus yeePowEngineId sealBytes] })

/-- `check_work_proof`: a nonce proof must hash the sealed header below the target; a
multi-mining proof must place the header's pre-seal hash under the merkle root at the shard's
index, carry the Blake2 check of its extra data, and hash its source below the target. -/
def checkWorkProof (header : Header AuthorityIdFor SealSignature) (powSeal : PowSeal AuthorityId H256) :
    Except Panic (Except String (DigestItem H256 AuthorityIdFor SealSignature × H256)) :=
  match powSeal.workProof with
  | .unknown => .ok (.error "invalid work proof")
  | .nonce proofNonce =>
    if maxExtraDataLength < proofNonce.extraData.length then .ok (.error "extra data too long")
    else
      match sealedHash v header powSeal with
      | .error p => .error p
      | .ok (item, hash) =>
        let proofPowTarget := powTargetFrom hash.bytes
        if powSeal.powTarget < proofPowTarget then
          .ok (.error ("Nonce proof: pow target not satisified, need " ++ toString powSeal.powTarget ++
            ", got " ++ toString proofPowTarget))
        else .ok (.ok (item, hash))
  | .multi proofMulti =>
    match (lastFilterMap asShardingInfo header.digest : Option (UInt16 × UInt16)) with
    | none => .error (Panic.expect "must exist")
    | some (shardNum, shardCount) =>
      match sealedHash v header { powSeal with workProof := .unknown } with
      | .error p => .error p
      | .ok (_, preHash) =>
        let merkleProofItemCount : UInt16 := 1 <<< UInt16.ofNat proofMulti.merkleProof.length
        let numCount : Option (UInt16 × UInt16) :=
          if merkleProofItemCount = shardCount then some (shardNum, shardCount)
          else if merkleProofItemCount = shardCount * 2 then some (shardNum, shardCount * 2)
          else none
        match numCount with
        | none => .ok (.error "Invalid merkle proof item count")
        | some (num, count) =>
          match parseOriginal ⟨proofMulti.merkleProof, preHash, proofMulti.merkleRoot, num, count⟩ with
          | .error e => .ok (.error e)
          | .ok originalProof =>
            if !v.validate originalProof.«lemma» originalProof.path then .ok (.error "Invalid merkle proof")
            else
              let eC := proofMulti.extraData.bytes
              -- `e_c[36..40]` against the first four bytes of the hash of `e_c[..36]`
              if (eC.drop 36).take 4 ≠ (v.blake2 (eC.take 36)).bytes.take 4 then
                .ok (.error ("Multi proof: pow check extra data failed: " ++ toString eC))
              else
                let sourcePowTarget :=
                  powTargetFrom (v.hashOfSource proofMulti.merkleRoot proofMulti.nonce proofMulti.extraData).bytes
                if powSeal.powTarget < sourcePowTarget then
                  .ok (.error ("Multi proof: pow target not satisfied, need " ++ toString powSeal.powTarget ++
                    ", got " ++ toString sourcePowTarget))
                else (sealedHash v header powSeal).map .ok

variable (AuthorityId) in
/-- `check_header`: the last digest item is taken off as the seal, and the seal is checked
against the rest of the header. -/
def checkHeader (header : Header AuthorityIdFor SealSignature) (hash : H256) :
    Except Panic (Except String (Header AuthorityIdFor SealSignature ×
      DigestItem H256 AuthorityIdFor SealSignature)) :=
  match header.digest.getLast? with
  | none => .ok (.error " get digest item failed.")
  | some digestItem =>
    let preHeader := { header with digest := header.digest.dropLast }
    match (asPowSeal digestItem : Except Panic (Option (PowSeal AuthorityId H256))) with
    | .error p => .error p
    | .ok none => .ok (.error ("Header " ++ hexString hash.bytes ++ " not sealed"))
    | .ok (some powSeal) =>
      match checkForkId v preHeader powSeal with
      | .error e => .ok (.error e)
      | .ok () =>
        match checkPowTarget v preHeader powSeal with
        | .error p => .error p
        | .ok (.error e) => .ok (.error e)
        | .ok (.ok ()) =>
          match checkShardInfoAt v preHeader with
          | .error p => .error p
          | .ok (.error e) => .ok (.error e)
          | .ok (.ok ()) =>
            match checkWorkProof v preHeader powSeal with
            | .error p => .error p
            | .ok (.error e) => .ok (.error e)
            | .ok (.ok _) => .ok (.ok (preHeader, digestItem))

variable (AuthorityId) in
/-- `PowVerifier::verify`: `check_header`, then the seal's relay proof and the body, which
`checkRest` stands for. -/
def verify (checkRest : H256 → Except String Unit) (header : Header AuthorityIdFor SealSignature) :
    Except Panic (Except String (Header AuthorityIdFor SealSignature ×
      DigestItem H256 AuthorityIdFor SealSignature)) :=
  let hash := v.hash header
  match checkHeader AuthorityId v header hash with
  | .error p => .error p
  | .ok (.error e) => .ok (.error e)
  | .ok (.ok (preHeader, sealItem)) =>
    match (asPowSeal sealItem : Except Panic (Option (PowSeal AuthorityId H256))) with
    | .error p => .error p
    | .ok none => .ok (.error ("Header " ++ hexString hash.bytes ++ " not sealed"))
    | .ok (some powSeal) =>
      match checkRest powSeal.relayProof with
      | .error e => .ok (.error e)
      | .ok () => .ok (.ok (preHeader, sealItem))

/-! ## What `calc_pow_target` returns -/

section Target

variable {header parent : Header AuthorityIdFor SealSignature} {timestamp : UInt64}

omit [Codec AccountId] in
/-- Block `1` takes the genesis target, whatever the timestamp of its seal. -/
lemma calcPowTarget_one (hp : v.headerByHash header.parentHash = some parent)
    (h1 : header.number = 1) :
    calcPowTarget AuthorityId v header timestamp = .ok v.context.genesisPowTarget := by
  simp [calcPowTarget, hp, h1]

omit [Codec AccountId] in
/-- Between adjustments a block takes its parent's target, or the genesis target when its
parent carries no seal. -/
lemma calcPowTarget_between (hp : v.headerByHash header.parentHash = some parent)
    (h1 : header.number ≠ 1) (hadj : v.context.genesisPowTargetAdj ≠ 0)
    (hoff : (header.number - 1) % v.context.genesisPowTargetAdj ≠ 0) :
    calcPowTarget AuthorityId v header timestamp =
      (lastPowSeal parent.digest : Except Panic (Option (PowSeal AuthorityId H256))).map
        fun powSeal => (powSeal.map PowSeal.powTarget).getD v.context.genesisPowTarget := by
  simp [calcPowTarget, hp, h1, hadj, hoff]

omit [Codec AccountId] in
/-- At an adjustment a block's target is `retarget` of its parent's target, from the
timestamp of the ancestor `adj` blocks back. -/
lemma calcPowTarget_adjust (hp : v.headerByHash header.parentHash = some parent)
    (h1 : header.number ≠ 1) (hadj : v.context.genesisPowTargetAdj ≠ 0)
    (hon : (header.number - 1) % v.context.genesisPowTargetAdj = 0)
    {currSeal ancestorSeal : PowSeal AuthorityId H256} {ancestor : Header AuthorityIdFor SealSignature}
    (hcurr : lastPowSeal parent.digest = .ok (some currSeal))
    (hanc : v.headerByNumber (header.number - v.context.genesisPowTargetAdj) = some ancestor)
    (hancSeal : lastPowSeal ancestor.digest = .ok (some ancestorSeal)) :
    calcPowTarget AuthorityId v header timestamp =
      retarget v.context currSeal.powTarget v.context.genesisPowTargetAdj ancestorSeal.timestamp
        timestamp := by
  simp [calcPowTarget, hp, h1, hadj, hon, hcurr, hanc, hancSeal]

end Target

/-- A seal timestamp below the ancestor's is the panic of `calc_pow_target`. -/
lemma retarget_of_lt {context : Context} {currPowTarget : PowTarget} {blockGap lastTime timestamp : UInt64}
    (h : timestamp < lastTime) :
    retarget context currPowTarget blockGap lastTime timestamp =
      .error ⟨"timestamp:" ++ toString timestamp ++ " < last_time: " ++ toString lastTime⟩ := by
  simp [retarget, h]

/-! ## What `check_header` and `verify` return -/

section Outcome

variable {header : Header AuthorityIdFor SealSignature} {hash : H256}
  {item : DigestItem H256 AuthorityIdFor SealSignature}

/-- A seal the decoder panics on is a panic of `check_header`. -/
lemma checkHeader_of_asPowSeal_error {p : Panic} (hlast : header.digest.getLast? = some item)
    (hp : (asPowSeal item : Except Panic (Option (PowSeal AuthorityId H256))) = .error p) :
    checkHeader AuthorityId v header hash = .error p := by
  simp [checkHeader, hlast, hp]

/-- So is a panic of `calc_pow_target`, on a seal with the expected fork id. -/
lemma checkHeader_of_calcPowTarget_error {p : Panic} {powSeal : PowSeal AuthorityId H256}
    (hlast : header.digest.getLast? = some item) (hseal : asPowSeal item = .ok (some powSeal))
    (hfork : checkForkId v { header with digest := header.digest.dropLast } powSeal = .ok ())
    (hp : calcPowTarget AuthorityId v { header with digest := header.digest.dropLast }
      powSeal.timestamp = .error p) :
    checkHeader AuthorityId v header hash = .error p := by
  simp [checkHeader, hlast, hseal, hfork, checkPowTarget, hp, Except.map]

/-- A header passes `check_header` when its seal passes the four checks; what is returned is
the header without the seal, and the seal. -/
lemma checkHeader_of_checks {powSeal : PowSeal AuthorityId H256}
    {sealed : DigestItem H256 AuthorityIdFor SealSignature × H256}
    (hlast : header.digest.getLast? = some item) (hseal : asPowSeal item = .ok (some powSeal))
    (hfork : checkForkId v { header with digest := header.digest.dropLast } powSeal = .ok ())
    (hpow : checkPowTarget v { header with digest := header.digest.dropLast } powSeal = .ok (.ok ()))
    (hshard : checkShardInfoAt v { header with digest := header.digest.dropLast } = .ok (.ok ()))
    (hwork : checkWorkProof v { header with digest := header.digest.dropLast } powSeal =
      .ok (.ok sealed)) :
    checkHeader AuthorityId v header hash =
      .ok (.ok ({ header with digest := header.digest.dropLast }, item)) := by
  simp [checkHeader, hlast, hseal, hfork, hpow, hshard, hwork]

/-- A panic of `check_header` is a panic of `verify`. -/
lemma verify_of_checkHeader_error {checkRest : H256 → Except String Unit} {p : Panic}
    (h : checkHeader AuthorityId v header (v.hash header) = .error p) :
    verify AuthorityId v checkRest header = .error p := by
  simp [verify, h]

/-- `verify` accepts what `check_header` accepts once the relay proof and the body pass. -/
lemma verify_of_checkHeader_ok {checkRest : H256 → Except String Unit}
    {preHeader : Header AuthorityIdFor SealSignature} {powSeal : PowSeal AuthorityId H256}
    (h : checkHeader AuthorityId v header (v.hash header) = .ok (.ok (preHeader, item)))
    (hseal : asPowSeal item = .ok (some powSeal)) (hrest : checkRest powSeal.relayProof = .ok ()) :
    verify AuthorityId v checkRest header = .ok (.ok (preHeader, item)) := by
  simp [verify, h, hseal, hrest]

end Outcome

omit [Codec AccountId] in
/-- **The multi-mining branch of `check_work_proof`.**  A proof whose node count gives the
header's shard count, or twice it during a scale-out, is accepted when `parse_original` takes
it, with the header's pre-seal hash as its item, to a valid lemma, its extra data carries its
check, and its source meets the seal's target; the header is then sealed as usual. -/
lemma checkWorkProof_multi {header : Header AuthorityIdFor SealSignature}
    {powSeal : PowSeal AuthorityId H256} {proofMulti : ProofMulti H256}
    {shardNum shardCount count : UInt16} {preItem : DigestItem H256 AuthorityIdFor SealSignature}
    {preHash : H256} {omp : OriginalMerkleProof}
    (hwork : powSeal.workProof = .multi proofMulti)
    (hinfo : (lastFilterMap asShardingInfo header.digest : Option (UInt16 × UInt16)) =
      some (shardNum, shardCount))
    (hpre : sealedHash v header { powSeal with workProof := .unknown } = .ok (preItem, preHash))
    (hcount : (1 : UInt16) <<< UInt16.ofNat proofMulti.merkleProof.length = count)
    (hscale : count = shardCount ∨ count ≠ shardCount ∧ count = shardCount * 2)
    (hparse : parseOriginal ⟨proofMulti.merkleProof, preHash, proofMulti.merkleRoot, shardNum, count⟩ =
      .ok omp)
    (hvalid : v.validate omp.«lemma» omp.path = true)
    (hextra : (proofMulti.extraData.bytes.drop 36).take 4 =
      (v.blake2 (proofMulti.extraData.bytes.take 36)).bytes.take 4)
    (htarget : powTargetFrom
      (v.hashOfSource proofMulti.merkleRoot proofMulti.nonce proofMulti.extraData).bytes ≤
        powSeal.powTarget) :
    checkWorkProof v header powSeal = (sealedHash v header powSeal).map .ok := by
  have hnumCount : (if count = shardCount then some (shardNum, shardCount)
      else if count = shardCount * 2 then some (shardNum, shardCount * 2) else none) =
      some (shardNum, count) := by
    rcases hscale with rfl | ⟨hne, rfl⟩
    · rw [if_pos rfl]
    · rw [if_neg hne, if_pos rfl]
  simp only [checkWorkProof, hwork, hinfo, hpre, hcount]
  rw [hnumCount]
  simp only [hparse, hvalid, hextra, ne_eq, not_true_eq_false, if_false, Bool.not_true,
    Bool.false_eq_true, not_lt.mpr htarget]

/-- A header whose last digest item is a version-0 seal followed by four bytes other than
`1` makes every node's verifier panic, wherever its parent is and whatever the rest of its
digest: `decode_pow_seal` reads the four bytes as `extra_version` and hits
`unreachable!()`. -/
theorem pow_verifier_panics_on_seal_version [LawfulCodec AuthorityId] (checkRest : H256 → Except String Unit)
    (header : Header AuthorityIdFor SealSignature) (s : PowSeal AuthorityId H256)
    (hw : s.workProof.Encodable) (version : UInt32) (hv : version ≠ 1) (rest : Bytes)
    (hlast : header.digest.getLast? =
      some (.consensus yeePowEngineId (encode s.payload ++ (encode version ++ rest)))) :
    verify AuthorityId v checkRest header = .error Panic.unreachable := by
  apply verify_of_checkHeader_error
  apply checkHeader_of_asPowSeal_error v hlast
  rw [asPowSeal, if_pos rfl]
  exact decodePowSeal_encode_v0_panics hw version hv rest

end Verify

/-! ## A chain of one shard -/

section DevChain

/-- The zero hash, for the roots of the chain below. -/
def zeroHash : H256 := ⟨List.replicate 32 0, List.length_replicate⟩

/-- The header hash of the chain below: the block number, big-endian. -/
def numberHash (n : UInt64) : H256 := ⟨BigEndian.ofNat 32 n.toNat, BigEndian.length_ofNat 32 _⟩

/-- The largest target, which every hash meets. -/
def maxPowTarget : PowTarget := ⟨2 ^ 256 - 1, by norm_num⟩

/-- A version-0 seal at the largest target, of a nonce proof without extra data. -/
def devSeal (timestamp : UInt64) : PowSeal H256 H256 :=
  ⟨zeroHash, maxPowTarget, timestamp, .nonce ⟨[], 0⟩, zeroHash, 0, ⟨none⟩⟩

/-- The seal as the last digest item of a header. -/
def devSealItem (timestamp : UInt64) : DigestItem H256 H256 H256 :=
  .consensus yeePowEngineId (encode (devSeal timestamp).payload)

/-- The genesis header: shard `0` of `1`. -/
def devGenesis : Header H256 H256 := ⟨0, zeroHash, [shardingInfo (0 : UInt16) 1]⟩

/-- Block `number` of the chain, sealed at `timestamp`. -/
def devHeader (number timestamp : UInt64) : Header H256 H256 :=
  ⟨number, numberHash (number - 1), [shardingInfo (0 : UInt16) 1, devSealItem timestamp]⟩

/-- A node of the chain with block `1`, sealed at `100`, imported: one shard, a retarget at
every block (`adj = 1`), one second per block, the largest genesis target. -/
def devVerifier : Verifier H256 H256 H256 where
  chainSpecId := "dev"
  shardExtra := ⟨none, 0, 1, none⟩
  context := ⟨maxPowTarget, 1, 1, 1, 30⟩
  headerByHash h :=
    if h = numberHash 0 then some devGenesis else if h = numberHash 1 then some (devHeader 1 100) else none
  headerByNumber n := if n = 0 then some devGenesis else if n = 1 then some (devHeader 1 100) else none
  hash header := numberHash header.number
  hashOfSource _ _ _ := zeroHash
  blake2 _ := zeroHash
  validate _ _ := true

lemma devSeal_encodable (timestamp : UInt64) : (devSeal timestamp).workProof.Encodable := by
  simp [devSeal, WorkProof.Encodable]

lemma asPowSeal_devSealItem (timestamp : UInt64) :
    (asPowSeal (devSealItem timestamp) : Except Panic (Option (PowSeal H256 H256))) =
      .ok (some (devSeal timestamp)) := by
  rw [devSealItem, asPowSeal, if_pos rfl, ← List.append_nil (encode _)]
  exact decodePowSeal_encode_v0_append (devSeal_encodable timestamp) rfl rfl [] (by decide)

lemma lastPowSeal_devHeader (number timestamp : UInt64) :
    (lastPowSeal (devHeader number timestamp).digest : Except Panic (Option (PowSeal H256 H256))) =
      .ok (some (devSeal timestamp)) := by
  simp [lastPowSeal, devHeader, firstSomeM, asPowSeal_devSealItem]

/-- Block `1` passes every check of the node: its target is the genesis target, whatever its
timestamp, and every hash meets it. -/
lemma verify_devHeader_one :
    verify H256 devVerifier (fun _ => .ok ()) (devHeader 1 100) =
      .ok (.ok (⟨1, numberHash 0, [shardingInfo (0 : UInt16) 1]⟩, devSealItem 100)) := by
  have hpow : checkPowTarget devVerifier ⟨1, numberHash 0, [shardingInfo (0 : UInt16) 1]⟩
      (devSeal 100) = .ok (.ok ()) := by
    rw [checkPowTarget, calcPowTarget_one devVerifier rfl rfl]
    simp [devSeal, devVerifier, Except.map]
  have hshard : checkShardInfoAt devVerifier ⟨1, numberHash 0, [shardingInfo (0 : UInt16) 1]⟩ =
      .ok (.ok ()) := by
    decide +kernel
  have hwork : checkWorkProof devVerifier ⟨1, numberHash 0, [shardingInfo (0 : UInt16) 1]⟩
      (devSeal 100) = .ok (.ok (devSealItem 100, numberHash 1)) := by
    decide +kernel
  apply verify_of_checkHeader_ok devVerifier _ (asPowSeal_devSealItem 100) rfl
  exact checkHeader_of_checks devVerifier rfl (asPowSeal_devSealItem 100) rfl hpow hshard hwork

end DevChain

/-- The verifier at a seal of version `0` followed by an `extra_version` of `2`. -/
theorem pow_verifier_panics_on_seal_version_two :
    verify H256 devVerifier (fun _ => .ok ())
      ⟨1, numberHash 0, [.consensus yeePowEngineId (encode (devSeal 0).payload ++ (encode (2 : UInt32) ++ []))]⟩ =
      .error Panic.unreachable :=
  pow_verifier_panics_on_seal_version devVerifier _ _ (devSeal 0) (devSeal_encodable 0) 2 (by decide) [] rfl

/-- On a chain of one shard with a retarget at every block, block `1` sealed at `100` is
accepted, and a block `2` sealed at `50` on top of it makes the node panic in
`calc_pow_target` instead of being rejected. -/
theorem pow_target_panics_below_ancestor_time :
    verify H256 devVerifier (fun _ => .ok ()) (devHeader 1 100) =
        .ok (.ok (⟨1, numberHash 0, [shardingInfo (0 : UInt16) 1]⟩, devSealItem 100)) ∧
      verify H256 devVerifier (fun _ => .ok ()) (devHeader 2 50) =
        .error ⟨"timestamp:50 < last_time: 100"⟩ := by
  refine ⟨verify_devHeader_one, ?_⟩
  apply verify_of_checkHeader_error
  apply checkHeader_of_calcPowTarget_error devVerifier rfl (asPowSeal_devSealItem 50) rfl
  -- block `2` is an adjustment, and its ancestor `1` block back is block `1`
  rw [calcPowTarget_adjust devVerifier rfl (by decide) (by decide) (by decide)
    (lastPowSeal_devHeader 1 100) rfl (lastPowSeal_devHeader 1 100)]
  exact retarget_of_lt (by decide)

end Pow
end Yeeroot

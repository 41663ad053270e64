import Yeeroot.Pow.Check
import Yeeroot.Rpc.SerdeHex

/-!
# The switch's multi-mining work and the node's check of it

The switch (`switch/mining2`, `switch/rpc`) mines for several shards at once.  `RawWork::compile`
builds a Merkle tree, with `MiningAlgorithm`, over one job hash per shard.  A miner submits 76
bytes, which `Pow::decode_submit_work` reads as the tree's root, a nonce and 36 bytes of extra
data.  It appends to the extra data the first four bytes of their Blake2 hash, and takes as
the nonce's target the target of the hash of root, nonce and extra data.  For each shard
whose job's target the nonce meets, `accept_work_future` sends a `ProofMulti`: the extra
data, the root, the nonce, and the compact proof of the shard's leaf, which is
`merkle_light`'s `gen_proof` without its first and last entries.

The node never sees the full proof.  `check_work_proof` (`Yeeroot.Pow.checkWorkProof`) rebuilds
it from the node's own shard marker and pre-seal hash.  The main result, `multi_mining_agreement`,
says the two sides agree.  A proof the switch sends for leaf `i` of a tree of `2 ^ height`
leaves passes every step of the node's check when the leaf is the node's pre-seal hash and the
job's target is the seal's.  This holds for a node of `2 ^ height` shards and, during a
scale-out, for one of `2 ^ (height - 1)`.  Conversely, `parse_original` and the conversion to
a compact proof undo each other.

`merkle_light` is not part of the repository.  The switch's tree is any `MerkleLight` with
the crate's documented behaviour (`MerkleLight.Lawful`): the lemma of a leaf is the leaf, a
sibling per level and the root, and its path is the leaf's index bit by bit.  The node
validates with the same crate.  `perfectMerkle`, the perfect tree of `Yeeroot.Lib.Merkle`
over `MiningAlgorithm`'s node hash, is one such tree.
-/

namespace Yeeroot
namespace Switch

open Scale Substrate Rust Yeeroot.Pow Sharding Readers

/-! ## Submissions and the proofs the switch sends -/

/-- `SubmitJob`: a miner's solution as the RPC reads it. -/
structure SubmitJob where
  merkleRoot : H256
  extraData : ExtraData
  nonce : UInt64
  nonceTarget : PowTarget

/-- `Pow::decode_submit_work`.  The input is read as 32 bytes of merkle root, then 8 bytes of
nonce in little-endian order, then 36 bytes of extra data.  Four check bytes, the start of
the Blake2 hash of the extra data, are appended to it.  The nonce target is the target of the
hash of root, nonce and extra data.  The array the source fills always has 40 bytes; so does
the list here once the input has 76. -/
def decodeSubmitWork (blake2 : Bytes → H256) (hashOf : H256 → UInt64 → ExtraData → H256)
    (input : Bytes) : Except Panic (Option SubmitJob) :=
  if input.length < 76 then .ok none
  else
    match (decode (input.take 32) : Option (H256 × Bytes)) with
    | none => .ok none
    | some (merkleRoot, _) =>
      match SerdeHex.u64FromBytes ((input.drop 32).take 8).reverse with
      | .error p => .error p
      | .ok (.error _) => .ok none
      | .ok (.ok nonce) =>
        let extra := (input.drop 40).take 36
        let check := (blake2 extra).bytes.take 4
        if hlen : (extra ++ check).length = 40 then
          let extraData : ExtraData := ⟨extra ++ check, hlen⟩
          .ok (some ⟨merkleRoot, extraData, nonce,
            powTargetFrom (hashOf merkleRoot nonce extraData).bytes⟩)
        else .ok none

/-- What `accept_work_future` sends to shard `actualShardNum` of a work of `shardCount` shards
whose tree `ml` built over the `leaves`, for a job of target `jobTarget`.  When the nonce
meets the target, it sends the multi-mining proof with the compact proof of the shard's leaf;
when it misses it (`TargetNotAccept`), `none`. -/
def acceptShard (ml : MerkleLight) (leaves : List H256) (work : SubmitJob)
    (actualShardNum shardCount : UInt16) (jobTarget : PowTarget) :
    Except Panic (Option (ProofMulti H256)) :=
  if work.nonceTarget ≤ jobTarget then do
    let proof ← ml.genProof leaves actualShardNum.toNat
    let compact ← CompactMerkleProof.ofOriginal ⟨proof.1, proof.2, actualShardNum, shardCount⟩
    return some ⟨work.extraData, work.merkleRoot, work.nonce, compact.proof⟩
  else .ok none

/-! ## What each side computes -/

/-- A submission carries its own check bytes, and its target is that of its source. -/
lemma decodeSubmitWork_some {blake2 : Bytes → H256} {hashOf : H256 → UInt64 → ExtraData → H256}
    {input : Bytes} {work : SubmitJob}
    (h : decodeSubmitWork blake2 hashOf input = .ok (some work)) :
    (work.extraData.bytes.drop 36).take 4 = (blake2 (work.extraData.bytes.take 36)).bytes.take 4 ∧
      work.nonceTarget = powTargetFrom (hashOf work.merkleRoot work.nonce work.extraData).bytes := by
  unfold decodeSubmitWork at h
  by_cases hshort : input.length < 76
  · rw [if_pos hshort] at h
    cases h
  rw [if_neg hshort] at h
  cases hdec : (decode (input.take 32) : Option (H256 × Bytes)) with
  | none =>
    rw [hdec] at h
    cases h
  | some decoded =>
    rw [hdec] at h
    dsimp only at h
    cases hnonce : SerdeHex.u64FromBytes ((input.drop 32).take 8).reverse with
    | error p =>
      rw [hnonce] at h
      cases h
    | ok r =>
      rw [hnonce] at h
      cases r with
      | error e => cases h
      | ok nonce =>
        dsimp only at h
        split at h
        · cases h
          have hextra : ((input.drop 40).take 36).length = 36 := by
            simp only [List.length_take, List.length_drop]
            omega
          refine ⟨?_, rfl⟩
          simp [hextra]
        · cases h

/-- The compact form of a lemma `item, siblings…, root` is its siblings. -/
lemma ofOriginal_lemma (item root : H256) (siblings : List H256) (path : List Bool)
    (num count : UInt16) :
    CompactMerkleProof.ofOriginal ⟨item :: (siblings ++ [root]), path, num, count⟩ =
      .ok ⟨siblings, item, root, num, count⟩ := by
  have hlast : (item :: (siblings ++ [root])).getLast? = some root := by
    rw [← List.cons_append, List.getLast?_concat]
  unfold CompactMerkleProof.ofOriginal
  simp only [List.head?_cons, hlast]
  simp

/-- When the nonce meets the job's target, the switch sends the work's extra data, root and
nonce with the siblings of the crate's proof of the shard's leaf. -/
lemma acceptShard_eq {ml : MerkleLight} (hml : ml.Lawful) {height : ℕ} {leaves : List H256}
    (hleaves : leaves.length = 2 ^ height) (work : SubmitJob) {i : UInt16}
    (hi : i.toNat < 2 ^ height) {jobTarget : PowTarget} (hnonce : work.nonceTarget ≤ jobTarget) :
    ∃ siblings : List H256, siblings.length = height ∧
      ml.genProof leaves i.toNat = .ok (leaves.getD i.toNat default ::
        (siblings ++ [ml.root leaves]), Merkle.path height i.toNat) ∧
      acceptShard ml leaves work i (UInt16.ofNat (2 ^ height)) jobTarget =
        .ok (some ⟨work.extraData, work.merkleRoot, work.nonce, siblings⟩) := by
  obtain ⟨siblings, hlen, hgen⟩ := hml.genProof_ok height leaves hleaves i.toNat hi
  refine ⟨siblings, hlen, hgen, ?_⟩
  rw [acceptShard, if_pos hnonce, hgen]
  simp only [bind, Except.bind, ofOriginal_lemma]
  rfl

/-- The seal's encoding depends on its version and on its work proof's vectors only, so a seal
whose work proof is short enough encodes when its pre-seal form does. -/
lemma sealedHash_of_pre {AuthorityIdFor SealSignature AccountId AuthorityId : Type}
    [Codec AuthorityId] (v : Verifier AuthorityIdFor SealSignature AccountId)
    {header : Header AuthorityIdFor SealSignature} {powSeal : PowSeal AuthorityId H256}
    {preItem : DigestItem H256 AuthorityIdFor SealSignature} {preHash : H256}
    (hw : powSeal.workProof.Encodable)
    (hpre : sealedHash v header { powSeal with workProof := .unknown } = .ok (preItem, preHash)) :
    ∃ sealed, sealedHash v header powSeal = .ok sealed := by
  unfold sealedHash encodePowSeal at *
  split_ifs at hpre ⊢ <;> first | exact ⟨_, rfl⟩ | cases hpre

/-! ## Agreement -/

/-- The node's shard count against the tree's `2 ^ height`: equal on a node of `2 ^ height`
shards, half of it on a node of `2 ^ (height - 1)` shards that is scaling out. -/
lemma shardCount_of_info {height : ℕ} (hh1 : 1 ≤ height) (hh : height < 16) {i : UInt16}
    {info : Option (UInt16 × UInt16)}
    (hinfo : info = some (i, UInt16.ofNat (2 ^ height)) ∨
      i.toNat < 2 ^ (height - 1) ∧ info = some (i, UInt16.ofNat (2 ^ (height - 1)))) :
    ∃ shardCount, info = some (i, shardCount) ∧
      (UInt16.ofNat (2 ^ height) = shardCount ∨
        UInt16.ofNat (2 ^ height) ≠ shardCount ∧ UInt16.ofNat (2 ^ height) = shardCount * 2) := by
  have hcount := toNat_ofNat_two_pow hh
  rcases hinfo with hinfo | ⟨_, hinfo⟩
  · exact ⟨_, hinfo, .inl rfl⟩
  · have hlow := toNat_ofNat_two_pow (show height - 1 < 16 by omega)
    have hlt : 2 ^ (height - 1) < 2 ^ height := Nat.pow_lt_pow_right (by norm_num) (by omega)
    refine ⟨_, hinfo, .inr ⟨?_, ?_⟩⟩
    · intro heq
      have := congrArg UInt16.toNat heq
      rw [hcount, hlow] at this
      omega
    · apply UInt16.toNat_inj.mp
      rw [hcount, UInt16.toNat_mul, hlow, show (2 : UInt16).toNat = 2 from rfl, ← pow_succ,
        Nat.sub_add_cancel hh1, Nat.mod_eq_of_lt (Nat.pow_lt_pow_right (by norm_num) hh)]

/-- **The node's check of a proof the switch sent.**  The compact proof of leaf `i` of a tree
whose root is the submission's passes every step of `check_work_proof` on a header of the
tree's shard count (or half of it, scaling out), whose pre-seal hash is the leaf, in a seal
of a target the submission's nonce meets. -/
lemma checkWorkProof_of_siblings {AuthorityIdFor SealSignature AccountId AuthorityId : Type}
    [Codec AuthorityId] (v : Verifier AuthorityIdFor SealSignature AccountId)
    {height : ℕ} (hh1 : 1 ≤ height) (hh : height < 16) {work : SubmitJob}
    (hcheck : (work.extraData.bytes.drop 36).take 4 =
      (v.blake2 (work.extraData.bytes.take 36)).bytes.take 4)
    (htarget : powTargetFrom (v.hashOfSource work.merkleRoot work.nonce work.extraData).bytes =
      work.nonceTarget)
    {i : UInt16} (hi : i.toNat < 2 ^ height) {siblings : List H256}
    (hlen : siblings.length = height) {leaf : H256}
    (hvalid : v.validate (leaf :: (siblings ++ [work.merkleRoot])) (Merkle.path height i.toNat) =
      true)
    {header : Header AuthorityIdFor SealSignature} {powSeal : PowSeal AuthorityId H256}
    {preItem : DigestItem H256 AuthorityIdFor SealSignature}
    (hinfo : lastFilterMap asShardingInfo header.digest = some (i, UInt16.ofNat (2 ^ height)) ∨
      i.toNat < 2 ^ (height - 1) ∧
        lastFilterMap asShardingInfo header.digest = some (i, UInt16.ofNat (2 ^ (height - 1))))
    (hmulti : powSeal.workProof = .multi ⟨work.extraData, work.merkleRoot, work.nonce, siblings⟩)
    (hnonce : work.nonceTarget ≤ powSeal.powTarget)
    (hpre : sealedHash v header { powSeal with workProof := .unknown } = .ok (preItem, leaf)) :
    ∃ sealed, checkWorkProof v header powSeal = .ok (.ok sealed) := by
  -- the node's count is the tree's, directly or as twice its own during a scale-out
  have hitems : (1 : UInt16) <<< UInt16.ofNat siblings.length = UInt16.ofNat (2 ^ height) := by
    rw [hlen]
    exact pow2_ofNat hh
  obtain ⟨shardCount, hinfo', hscale⟩ := shardCount_of_info hh1 hh hinfo
  -- the lemma the node rebuilds is the one the switch generated
  have hparse := @parseOriginal_eq ⟨siblings, leaf, work.merkleRoot, i, UInt16.ofNat (2 ^ height)⟩
    height hh rfl hi hlen
  -- the proof's siblings are few enough for `Vec::encode`
  have hw : powSeal.workProof.Encodable := by
    rw [hmulti]
    show siblings.length < 2 ^ 32
    omega
  obtain ⟨sealed, hsealed⟩ := sealedHash_of_pre v hw hpre
  refine ⟨sealed, ?_⟩
  rw [checkWorkProof_multi v hmulti hinfo' hpre hitems hscale hparse, hsealed]
  · rfl
  · rw [pathLoop_eq_path]
    exact hvalid
  · exact hcheck
  · rw [htarget]
    exact hnonce

/-- **Multi-mining agreement between switch and node.**  Take a tree that `merkle_light`, with
its documented behaviour, builds over `2 ^ height` leaves, `1 ≤ height ≤ 15`, on a node that
validates with the same crate; a submission the RPC reads whose root is the tree's; and a
shard `i` of the tree whose job's target the nonce meets.  Then the switch sends a proof.  The
node's target of its source is the submission's nonce target.  A node whose shard marker is
`(i, 2 ^ height)`, or `(i, 2 ^ (height - 1))` with `i` in the lower half, accepts the proof in
a seal of the job's target whenever its pre-seal hash is the leaf.  And `parse_original` and
the compact conversion undo each other: on the crate's proof of every leaf, and on every
compact proof that `parse_original` takes. -/
theorem multi_mining_agreement {AuthorityIdFor SealSignature AccountId AuthorityId : Type}
    [Codec AccountId] [Codec AuthorityId] (v : Verifier AuthorityIdFor SealSignature AccountId)
    (ml : MerkleLight) (hml : ml.Lawful)
    (hvalidate : ∀ nodes path, v.validate nodes path = ml.validate nodes path)
    (height : ℕ) (hheight : 1 ≤ height ∧ height ≤ 15) (leaves : List H256)
    (hleaves : leaves.length = 2 ^ height) (input : Bytes) (work : SubmitJob)
    (hwork : decodeSubmitWork v.blake2 v.hashOfSource input = .ok (some work))
    (hroot : work.merkleRoot = ml.root leaves)
    (i : UInt16) (hi : i.toNat < 2 ^ height) (jobTarget : PowTarget)
    (hnonce : work.nonceTarget ≤ jobTarget) :
    (∃ proofMulti, acceptShard ml leaves work i (UInt16.ofNat (2 ^ height)) jobTarget =
        .ok (some proofMulti)) ∧
      (∀ proofMulti, acceptShard ml leaves work i (UInt16.ofNat (2 ^ height)) jobTarget =
          .ok (some proofMulti) →
        powTargetFrom
            (v.hashOfSource proofMulti.merkleRoot proofMulti.nonce proofMulti.extraData).bytes =
          work.nonceTarget ∧
        ∀ (header : Header AuthorityIdFor SealSignature) (powSeal : PowSeal AuthorityId H256)
          (preItem : DigestItem H256 AuthorityIdFor SealSignature),
          (lastFilterMap asShardingInfo header.digest = some (i, UInt16.ofNat (2 ^ height)) ∨
            i.toNat < 2 ^ (height - 1) ∧
              lastFilterMap asShardingInfo header.digest = some (i, UInt16.ofNat (2 ^ (height - 1)))) →
          powSeal.workProof = .multi proofMulti → powSeal.powTarget = jobTarget →
          sealedHash v header { powSeal with workProof := .unknown } =
            .ok (preItem, leaves.getD i.toNat default) →
          ∃ sealed, checkWorkProof v header powSeal = .ok (.ok sealed)) ∧
      (∀ num : UInt16, num.toNat < 2 ^ height →
        ∃ proof compact, ml.genProof leaves num.toNat = .ok proof ∧
          CompactMerkleProof.ofOriginal ⟨proof.1, proof.2, num, UInt16.ofNat (2 ^ height)⟩ =
            .ok compact ∧
          parseOriginal compact = .ok ⟨proof.1, proof.2, num, UInt16.ofNat (2 ^ height)⟩) ∧
      (∀ compact original, parseOriginal compact = .ok original →
        CompactMerkleProof.ofOriginal original = .ok compact) := by
  obtain ⟨hh1, hh15⟩ := hheight
  have hh : height < 16 := by omega
  obtain ⟨siblings, hlen, hgen, hsend⟩ := acceptShard_eq hml hleaves work hi hnonce
  obtain ⟨hcheck, htargetEq⟩ := decodeSubmitWork_some hwork
  refine ⟨⟨_, hsend⟩, ?_, ?_, fun _ _ h => ofOriginal_parseOriginal h⟩
  · -- the node's check of the proof the switch sent, which the node validates as the crate's
    intro proofMulti hproof
    rw [hsend] at hproof
    cases hproof
    refine ⟨htargetEq.symm, ?_⟩
    intro header powSeal preItem hinfo hmulti hjob hpre
    have hvalid : v.validate (leaves.getD i.toNat default :: (siblings ++ [work.merkleRoot]))
        (Merkle.path height i.toNat) = true := by
      rw [hvalidate, hroot]
      exact hml.validate_genProof height leaves hleaves i.toNat _ _ hgen
    exact checkWorkProof_of_siblings v hh1 hh hcheck htargetEq.symm hi hlen hvalid hinfo hmulti
      (hjob ▸ hnonce) hpre
  · -- the crate's proof of every leaf survives the compact form
    intro num hnum
    obtain ⟨siblings', hlen', hgen'⟩ := hml.genProof_ok height leaves hleaves num.toNat hnum
    have hcompact := ofOriginal_lemma (leaves.getD num.toNat default) (ml.root leaves) siblings'
      (Merkle.path height num.toNat) num (UInt16.ofNat (2 ^ height))
    refine ⟨_, _, hgen', hcompact, ?_⟩
    exact parseOriginal_ofOriginal hcompact hh rfl hnum (by simp [hlen'])
      (by rw [pathLoop_eq_path])

/-- `merkle_light` as the perfect tree of `Yeeroot.Lib.Merkle` over `MiningAlgorithm`'s node
hash, its height read off the number of leaves. -/
def perfectMerkle (blake2 : Bytes → H256) : MerkleLight where
  root leaves := Merkle.root (miningNode blake2) (Nat.log2 leaves.length) leaves
  genProof leaves i :=
    if i < leaves.length then
      .ok (Merkle.genProof (miningNode blake2) (Nat.log2 leaves.length) leaves i)
    else .error (Panic.assertFailed "i < self.leafs")
  validate := Merkle.validate (miningNode blake2)

/-- The perfect tree has the crate's documented behaviour. -/
lemma perfectMerkle_lawful (blake2 : Bytes → H256) : (perfectMerkle blake2).Lawful where
  genProof_ok height leaves hleaves i hi := by
    refine ⟨Merkle.siblings (miningNode blake2) height leaves i, Merkle.length_siblings _ _ _ _, ?_⟩
    simp only [perfectMerkle, hleaves, if_pos hi, Nat.log2_two_pow, Merkle.genProof]
  validate_genProof height leaves hleaves i nodes path h := by
    simp only [perfectMerkle, hleaves, Nat.log2_two_pow] at h
    split at h
    · rename_i hi
      cases h
      exact Merkle.validate_genProof (miningNode blake2) hleaves hi
    · cases h

/-- The development chain's hashes, every one the zero hash, with the perfect tree's check. -/
def multiVerifier : Verifier H256 H256 H256 :=
  { devVerifier with validate := (perfectMerkle devVerifier.blake2).validate }

/-- What the RPC reads from 76 zero bytes. -/
def zeroWork : SubmitJob :=
  ⟨zeroHash, ⟨List.replicate 40 0, List.length_replicate⟩, 0, powTargetFrom zeroHash.bytes⟩

theorem multi_mining_agreement_zero_tree :
    decodeSubmitWork multiVerifier.blake2 multiVerifier.hashOfSource (List.replicate 76 0) =
        .ok (some zeroWork) ∧
      ∃ proofMulti, acceptShard (perfectMerkle multiVerifier.blake2) [zeroHash, zeroHash] zeroWork 0
        (UInt16.ofNat (2 ^ 1)) maxPowTarget = .ok (some proofMulti) := by
  have hwork : decodeSubmitWork multiVerifier.blake2 multiVerifier.hashOfSource
      (List.replicate 76 0) = .ok (some zeroWork) := rfl
  exact ⟨hwork, (@multi_mining_agreement H256 H256 H256 H256 _ _ multiVerifier
    (perfectMerkle multiVerifier.blake2) (perfectMerkle_lawful _) (fun _ _ => rfl) 1
    ⟨le_rfl, by norm_num⟩ [zeroHash, zeroHash] rfl _ zeroWork hwork rfl 0 (by decide) maxPowTarget
    (by decide)).1⟩

end Switch
end Yeeroot

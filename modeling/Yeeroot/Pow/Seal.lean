import Yeeroot.Codec.Scale
import Yeeroot.Rust.Prelude

/-!
# The PoW seal and its two byte layouts

A block's work proof travels as the last digest item of its header,
`DigestItem::Consensus(YEE_POW_ENGINE_ID, bytes)`, where `bytes` is `encode_pow_seal(seal)`
(`core/consensus/pow/src/pow.rs`).  The seal has two layouts.  Version 0, the original one,
is the 5-tuple `(authority_id, pow_target, timestamp, work_proof, relay_proof)`; version 1
appends `extra_version` and the `PowSealExtra` that carries the fork id.  The encoder
chooses the layout from `extra_version` and hits `unreachable!()` on any other version; the
decoder tries the 6-tuple first and falls back to the 5-tuple, with no check that the input
was consumed.

The main results:

* `pow_seal_round_trip`: every seal of version 1, and every seal of version 0 without a
  fork id, is read back from its encoding; a version-1 encoding is read back whatever
  bytes follow it, so the decoder is not injective;
* `decodePowSeal_reencode`: a decoded seal re-encodes to bytes that decode to it, which
  is as far as the converse goes (`pow_seal_decode_accepts_trailing_byte`);
* `decodePowSeal_encode_v0_append`: a version-0 encoding followed by fewer than four bytes
  is still read back, while four more bytes are read as an `extra_version`, and any value
  other than `1` there makes the decoder panic (`decodePowSeal_encode_v0_panics`).

Generic parameters: `AuthorityId` is the runtime's authority key and `Hash` the block hash
type `B::Hash`; both are only assumed to have lawful codecs.
-/

namespace Yeeroot
namespace Pow

open Scale Rust

/-! ## The seal -/

/-- `PowTarget` of `pow_primitives`. -/
abbrev PowTarget := U256

/-- `ExtraData` of `extra_data.rs`: a `[u8; 40]`. -/
abbrev ExtraData := FixedBytes 40

/-- Classical pow proof with extra data entropy and a 64-bit nonce. -/
structure ProofNonce where
  extraData : List UInt8
  nonce : UInt64
deriving DecidableEq

/-- Multi-mining pow proof with a merkle proof over the headers mined together. -/
structure ProofMulti (Hash : Type) where
  extraData : ExtraData
  merkleRoot : Hash
  nonce : UInt64
  merkleProof : List Hash
deriving DecidableEq

/-- The POW proof used in the block header. -/
inductive WorkProof (Hash : Type) where
  | unknown
  | nonce (proof : ProofNonce)
  | multi (proof : ProofMulti Hash)
deriving DecidableEq

/-- Version 1 of the seal's extension. -/
structure PowSealExtra where
  forkId : Option UInt32
deriving DecidableEq

/-- The POW consensus seal. -/
structure PowSeal (AuthorityId Hash : Type) where
  authorityId : AuthorityId
  powTarget : PowTarget
  timestamp : UInt64
  workProof : WorkProof Hash
  relayProof : H256
  extraVersion : UInt32
  extra : PowSealExtra
deriving DecidableEq

/-! ## Derived codecs -/

instance : Codec ProofNonce :=
  Codec.ofFields (fun p => (p.extraData, p.nonce)) fun (extraData, nonce) => ⟨extraData, nonce⟩

instance {Hash : Type} [Codec Hash] : Codec (ProofMulti Hash) :=
  Codec.ofFields (fun p => (p.extraData, p.merkleRoot, p.nonce, p.merkleProof))
    fun (extraData, merkleRoot, nonce, merkleProof) => ⟨extraData, merkleRoot, nonce, merkleProof⟩

/-- `#[codec(index = "0")]`, `"1"` and `"2"`: the variant index byte, then the fields. -/
instance {Hash : Type} [Codec Hash] : Codec (WorkProof Hash) where
  encode
    | .unknown => [0]
    | .nonce p => 1 :: encode p
    | .multi p => 2 :: encode p
  decode
    | 0 :: bs => some (.unknown, bs)
    | 1 :: bs => (decode bs).map fun (p, rest) => (.nonce p, rest)
    | 2 :: bs => (decode bs).map fun (p, rest) => (.multi p, rest)
    | _ => none

instance : Codec PowSealExtra := Codec.ofFields PowSealExtra.forkId PowSealExtra.mk

instance : LawfulCodec PowSealExtra := LawfulCodec.ofFields fun _ => rfl

namespace PowSeal

variable {AuthorityId Hash : Type}

/-- The seal's fields in declaration order: the tuple its derived codec encodes. -/
def fields (s : PowSeal AuthorityId Hash) :
    AuthorityId × PowTarget × UInt64 × WorkProof Hash × H256 × UInt32 × PowSealExtra :=
  (s.authorityId, s.powTarget, s.timestamp, s.workProof, s.relayProof, s.extraVersion, s.extra)

/-- The version-0 layout: the first five fields. -/
def payload (s : PowSeal AuthorityId Hash) :
    AuthorityId × PowTarget × UInt64 × WorkProof Hash × H256 :=
  (s.authorityId, s.powTarget, s.timestamp, s.workProof, s.relayProof)

end PowSeal

instance {AuthorityId Hash : Type} [Codec AuthorityId] [Codec Hash] :
    Codec (PowSeal AuthorityId Hash) :=
  Codec.ofFields PowSeal.fields
    fun (authorityId, powTarget, timestamp, workProof, relayProof, extraVersion, extra) =>
      ⟨authorityId, powTarget, timestamp, workProof, relayProof, extraVersion, extra⟩

/-- The vectors of a work proof are short enough for `Vec::encode`, which asserts that a
length fits in a `u32`. -/
def WorkProof.Encodable {Hash : Type} : WorkProof Hash → Prop
  | .unknown => True
  | .nonce p => p.extraData.length < 2 ^ 32
  | .multi p => p.merkleProof.length < 2 ^ 32

instance {Hash : Type} (w : WorkProof Hash) : Decidable w.Encodable :=
  match w with
  | .unknown => isTrue trivial
  | .nonce p => Nat.decLt p.extraData.length (2 ^ 32)
  | .multi p => Nat.decLt p.merkleProof.length (2 ^ 32)

/-! ## `encode_pow_seal` and `decode_pow_seal` -/

section Codec

variable {AuthorityId Hash : Type} [Codec AuthorityId] [Codec Hash]

/-- `encode_pow_seal`: the 5-tuple for version 0, the whole seal for version 1.  Either
encodes the work proof's vector, whose `Vec::encode` asserts that its length fits in a
`u32`. -/
def encodePowSeal (powSeal : PowSeal AuthorityId Hash) : Except Panic Bytes :=
  if powSeal.extraVersion = 0 then
    if powSeal.workProof.Encodable then .ok (encode powSeal.payload) else .error Panic.tooManyElements
  else if powSeal.extraVersion = 1 then
    if powSeal.workProof.Encodable then .ok (encode powSeal) else .error Panic.tooManyElements
  else .error Panic.unreachable

/-- `decode_pow_seal`: the 6-tuple with `extra_version` first, which must be `1` and be
followed by a `PowSealExtra`; if the 6-tuple does not decode, the 5-tuple, as version 0
without a fork id.  Whatever follows the decoded prefix is ignored. -/
def decodePowSeal (bytes : Bytes) : Except Panic (Option (PowSeal AuthorityId Hash)) :=
  match (decode bytes :
      Option ((AuthorityId × PowTarget × UInt64 × WorkProof Hash × H256 × UInt32) × Bytes)) with
  | some ((authorityId, powTarget, timestamp, workProof, relayProof, extraVersion), input) =>
    if extraVersion = 1 then
      match (decode input : Option (PowSealExtra × Bytes)) with
      | some (extra, _) =>
        .ok (some ⟨authorityId, powTarget, timestamp, workProof, relayProof, extraVersion, extra⟩)
      | none => .error (Panic.expect "qed")
    else .error Panic.unreachable
  | none =>
    match (decode bytes :
        Option ((AuthorityId × PowTarget × UInt64 × WorkProof Hash × H256) × Bytes)) with
    | some ((authorityId, powTarget, timestamp, workProof, relayProof), _) =>
      .ok (some ⟨authorityId, powTarget, timestamp, workProof, relayProof, 0, ⟨none⟩⟩)
    | none => .ok none

lemma encodePowSeal_v0 {s : PowSeal AuthorityId Hash} (h : s.extraVersion = 0)
    (hw : s.workProof.Encodable) : encodePowSeal s = .ok (encode s.payload) := by
  simp [encodePowSeal, h, hw]

lemma encodePowSeal_v1 {s : PowSeal AuthorityId Hash} (h : s.extraVersion = 1)
    (hw : s.workProof.Encodable) : encodePowSeal s = .ok (encode s) := by
  simp [encodePowSeal, h, hw]

/-- Any version other than `0` and `1` hits `unreachable!()` in the encoder. -/
lemma encodePowSeal_panics {s : PowSeal AuthorityId Hash} (h0 : s.extraVersion ≠ 0)
    (h1 : s.extraVersion ≠ 1) : encodePowSeal s = .error Panic.unreachable := by
  simp [encodePowSeal, h0, h1]

/-- The whole seal's encoding is the 6-tuple read by `decode_pow_seal`, then the extension. -/
lemma encode_powSeal (s : PowSeal AuthorityId Hash) :
    encode s = encode (s.authorityId, s.powTarget, s.timestamp, s.workProof, s.relayProof,
      s.extraVersion) ++ encode s.extra := by
  show encode s.fields = _
  simp [PowSeal.fields]

/-! ## What the decoder returns -/

lemma decode_workProof_cons (b : UInt8) (bs : Bytes) :
    (decode (b :: bs) : Option (WorkProof Hash × Bytes)) =
      if b = 0 then some (.unknown, bs)
      else if b = 1 then (decode bs).map fun (p, rest) => (.nonce p, rest)
      else if b = 2 then (decode bs).map fun (p, rest) => (.multi p, rest)
      else none := by
  simp only [decode]
  split <;> simp_all

/-- A decoded work proof is one that encodes: its vector came with a `u32` count. -/
lemma WorkProof.encodable_of_decode {bs rest : Bytes} {w : WorkProof Hash}
    (h : decode bs = some (w, rest)) : w.Encodable := by
  obtain _ | ⟨b, bs⟩ := bs
  · cases h
  rw [decode_workProof_cons] at h
  split_ifs at h
  · -- `Unknown`
    cases h
    trivial
  · -- `Nonce`: the extra data was read as a vector
    obtain ⟨⟨p, r⟩, hp, he⟩ := Option.map_eq_some_iff.mp h
    cases he
    obtain ⟨⟨⟨extraData, nonce⟩, r'⟩, hd, he'⟩ := Option.map_eq_some_iff.mp hp
    cases he'
    obtain ⟨mid, hvec, -⟩ := decode_pair_eq_some hd
    exact decodeVec_length_lt hvec
  · -- `Multi`: the merkle proof was read as a vector
    obtain ⟨⟨p, r⟩, hp, he⟩ := Option.map_eq_some_iff.mp h
    cases he
    obtain ⟨⟨⟨extraData, merkleRoot, nonce, merkleProof⟩, r'⟩, hd, he'⟩ :=
      Option.map_eq_some_iff.mp hp
    cases he'
    obtain ⟨_, -, hd⟩ := decode_pair_eq_some hd
    obtain ⟨_, -, hd⟩ := decode_pair_eq_some hd
    obtain ⟨_, -, hvec⟩ := decode_pair_eq_some hd
    exact decodeVec_length_lt hvec

/-- The work proof read by a tuple decoder is one that encodes. -/
lemma encodable_of_decode_tuple {γ : Type} [Codec γ] {bs rest : Bytes} {a : AuthorityId}
    {p : PowTarget} {t : UInt64} {w : WorkProof Hash} {g : γ}
    (h : decode bs = some ((a, p, t, w, g), rest)) : w.Encodable := by
  obtain ⟨_, -, h⟩ := decode_pair_eq_some h
  obtain ⟨_, -, h⟩ := decode_pair_eq_some h
  obtain ⟨_, -, h⟩ := decode_pair_eq_some h
  obtain ⟨_, h, -⟩ := decode_pair_eq_some h
  exact WorkProof.encodable_of_decode h

/-- What `decode_pow_seal` returns: a seal of version 1, or of version 0 without a fork id,
and in either case one whose work proof encodes. -/
lemma decodePowSeal_eq_some {bytes : Bytes} {s : PowSeal AuthorityId Hash}
    (h : decodePowSeal bytes = .ok (some s)) :
    s.workProof.Encodable ∧ (s.extraVersion = 1 ∨ s.extraVersion = 0 ∧ s.extra.forkId = none) := by
  unfold decodePowSeal at h
  split at h
  next authorityId powTarget timestamp workProof relayProof extraVersion input h6 =>
    -- the 6-tuple decoded: its version must be `1`, else the decoder panics
    split_ifs at h with hv
    split at h
    · cases h
      exact ⟨encodable_of_decode_tuple h6, .inl hv⟩
    · cases h
  next =>
    -- the fallback to the 5-tuple
    split at h
    next authorityId powTarget timestamp workProof relayProof _ h5 =>
      cases h
      exact ⟨encodable_of_decode_tuple h5, .inr ⟨rfl, rfl⟩⟩
    · cases h

end Codec

/-! ## Round trips of the parts -/

section RoundTrip

variable {AuthorityId Hash : Type} [Codec AuthorityId] [LawfulCodec AuthorityId]
  [Codec Hash] [LawfulCodec Hash]

lemma roundTrips_proofNonce {p : ProofNonce} (hp : p.extraData.length < 2 ^ 32) :
    RoundTrips p := by
  have h : RoundTrips (p.extraData, p.nonce) := roundTrips_pair (roundTrips_vec hp) (roundTrips _)
  intro rest
  show (decode (encode (p.extraData, p.nonce) ++ rest)).map _ = _
  rw [h, Option.map_some]

lemma roundTrips_proofMulti {p : ProofMulti Hash} (hp : p.merkleProof.length < 2 ^ 32) :
    RoundTrips p := by
  have h : RoundTrips (p.extraData, p.merkleRoot, p.nonce, p.merkleProof) :=
    roundTrips_pair (roundTrips _)
      (roundTrips_pair (roundTrips _) (roundTrips_pair (roundTrips _) (roundTrips_vec hp)))
  intro rest
  show (decode (encode (p.extraData, p.merkleRoot, p.nonce, p.merkleProof) ++ rest)).map _ = _
  rw [h, Option.map_some]

lemma roundTrips_workProof {w : WorkProof Hash} (hw : w.Encodable) : RoundTrips w := by
  intro rest
  cases w with
  | unknown => rfl
  | nonce p =>
    show (decode (encode p ++ rest)).map _ = _
    rw [roundTrips_proofNonce hw, Option.map_some]
  | multi p =>
    show (decode (encode p ++ rest)).map _ = _
    rw [roundTrips_proofMulti hw, Option.map_some]

/-- The version-0 layout of a seal with an encodable work proof round trips. -/
lemma roundTrips_payload {s : PowSeal AuthorityId Hash} (hw : s.workProof.Encodable) :
    RoundTrips s.payload :=
  roundTrips_pair (roundTrips _) (roundTrips_pair (roundTrips _)
    (roundTrips_pair (roundTrips _) (roundTrips_pair (roundTrips_workProof hw) (roundTrips _))))

/-- Reading the 6-tuple off a version-0 encoding reads the version from what follows it. -/
lemma decode_tuple6_payload {s : PowSeal AuthorityId Hash} (hw : s.workProof.Encodable)
    (rest : Bytes) :
    (decode (encode s.payload ++ rest) :
        Option ((AuthorityId × PowTarget × UInt64 × WorkProof Hash × H256 × UInt32) × Bytes)) =
      (decode rest).map fun (v, bs) =>
        ((s.authorityId, s.powTarget, s.timestamp, s.workProof, s.relayProof, v), bs) := by
  simp only [PowSeal.payload, encode_pair, List.append_assoc,
    decode_pair_of_roundTrips (roundTrips _), decode_pair_of_roundTrips (roundTrips_workProof hw),
    Option.map_map]
  rfl

end RoundTrip

/-! ## The decoder on the encoder's output -/

section Decode

variable {AuthorityId Hash : Type} [Codec AuthorityId] [LawfulCodec AuthorityId]
  [Codec Hash] [LawfulCodec Hash]

/-- A version-1 encoding is read back, whatever bytes follow it. -/
lemma decodePowSeal_encode_v1 {s : PowSeal AuthorityId Hash} (hw : s.workProof.Encodable)
    (h : s.extraVersion = 1) (rest : Bytes) :
    decodePowSeal (encode s ++ rest) = .ok (some s) := by
  have h6 : RoundTrips (s.authorityId, s.powTarget, s.timestamp, s.workProof, s.relayProof,
      s.extraVersion) :=
    roundTrips_pair (roundTrips _) (roundTrips_pair (roundTrips _) (roundTrips_pair
      (roundTrips _) (roundTrips_pair (roundTrips_workProof hw) (roundTrips_pair
        (roundTrips _) (roundTrips _)))))
  rw [decodePowSeal, encode_powSeal, List.append_assoc, h6, h]
  simp only [↓reduceIte, roundTrips s.extra rest]
  rw [← h]

/-- A version-0 encoding followed by fewer than four bytes is read back: too few bytes
remain for an `extra_version`, so the decoder falls back to the 5-tuple. -/
lemma decodePowSeal_encode_v0_append {s : PowSeal AuthorityId Hash}
    (hw : s.workProof.Encodable) (h : s.extraVersion = 0) (hf : s.extra.forkId = none)
    (rest : Bytes) (hrest : rest.length < 4) :
    decodePowSeal (encode s.payload ++ rest) = .ok (some s) := by
  have h6 := decode_tuple6_payload hw rest
  rw [decode_uint32_of_length_lt hrest, Option.map_none] at h6
  rw [decodePowSeal, h6, roundTrips_payload hw rest]
  obtain ⟨a, p, t, w, r, v, ⟨f⟩⟩ := s
  simp only at h hf
  subst h hf
  rfl

/-- Four bytes after a version-0 encoding are read as an `extra_version`; any value other
than `1` makes the decoder hit `unreachable!()`. -/
lemma decodePowSeal_encode_v0_panics {s : PowSeal AuthorityId Hash}
    (hw : s.workProof.Encodable) (v : UInt32) (hv : v ≠ 1) (rest : Bytes) :
    (decodePowSeal (encode s.payload ++ (encode v ++ rest)) :
      Except Panic (Option (PowSeal AuthorityId Hash))) = .error Panic.unreachable := by
  rw [decodePowSeal, decode_tuple6_payload hw, roundTrips v rest, Option.map_some]
  simp [hv]

/-- A decoded seal re-encodes without a panic, to bytes that decode to it again.  This is
as far as the converse of the round trip goes: the re-encoding need not be the bytes the
seal was read from. -/
lemma decodePowSeal_reencode {bytes : Bytes} {s : PowSeal AuthorityId Hash}
    (h : decodePowSeal bytes = .ok (some s)) :
    ∃ e, encodePowSeal s = .ok e ∧ decodePowSeal e = .ok (some s) := by
  obtain ⟨hw, h1 | ⟨h0, hf⟩⟩ := decodePowSeal_eq_some h
  · refine ⟨encode s, encodePowSeal_v1 h1 hw, ?_⟩
    simpa using decodePowSeal_encode_v1 hw h1 []
  · refine ⟨encode s.payload, encodePowSeal_v0 h0 hw, ?_⟩
    simpa using decodePowSeal_encode_v0_append hw h0 hf [] (by simp)

/-- **The PoW seal round trip.**  Every seal of version 1 is read back from its encoding
with any bytes appended, and every seal of version 0 without a fork id from its encoding;
neither encoding panics.  Conversely a decoded seal re-encodes to bytes that decode to it,
though not necessarily to the bytes it was read from. -/
theorem pow_seal_round_trip (s : PowSeal AuthorityId Hash) (hw : s.workProof.Encodable) :
    (s.extraVersion = 1 →
      ∃ b, encodePowSeal s = .ok b ∧ ∀ rest, decodePowSeal (b ++ rest) = .ok (some s)) ∧
    (s.extraVersion = 0 → s.extra.forkId = none →
      ∃ b, encodePowSeal s = .ok b ∧ decodePowSeal b = .ok (some s)) ∧
    (∀ b, decodePowSeal b = .ok (some s) →
      ∃ e, encodePowSeal s = .ok e ∧ decodePowSeal e = .ok (some s)) := by
  refine ⟨fun h1 => ⟨encode s, encodePowSeal_v1 h1 hw, decodePowSeal_encode_v1 hw h1⟩,
    fun h0 hf => ⟨encode s.payload, encodePowSeal_v0 h0 hw, ?_⟩,
    fun _ hb => decodePowSeal_reencode hb⟩
  simpa using decodePowSeal_encode_v0_append hw h0 hf [] (by decide)

end Decode

/-- The round trip at a version-1 seal of zero hashes and an unknown work proof. -/
theorem pow_seal_round_trip_zero_seal :
    let s : PowSeal H256 H256 := ⟨⟨List.replicate 32 0, List.length_replicate⟩, 0, 0, .unknown,
      ⟨List.replicate 32 0, List.length_replicate⟩, 1, ⟨none⟩⟩
    s.workProof.Encodable ∧
      ∃ b, encodePowSeal s = .ok b ∧ ∀ rest, decodePowSeal (b ++ rest) = .ok (some s) := by
  intro s
  exact ⟨trivial, (pow_seal_round_trip s trivial).1 rfl⟩

/-- The same seal is read from its encoding with a zero byte appended, which is not its
encoding: `decode_pow_seal` is not injective. -/
theorem pow_seal_decode_accepts_trailing_byte :
    let s : PowSeal H256 H256 := ⟨⟨List.replicate 32 0, List.length_replicate⟩, 0, 0, .unknown,
      ⟨List.replicate 32 0, List.length_replicate⟩, 1, ⟨none⟩⟩
    decodePowSeal (encode s ++ [0]) = .ok (some s) ∧ encodePowSeal s ≠ .ok (encode s ++ [0]) := by
  intro s
  have hw : s.workProof.Encodable := trivial
  have hv : s.extraVersion = 1 := rfl
  refine ⟨decodePowSeal_encode_v1 hw hv [0], ?_⟩
  rw [encodePowSeal_v1 hv hw]
  intro h
  have hlen := congrArg List.length (Except.ok.inj h)
  simp at hlen

end Pow
end Yeeroot

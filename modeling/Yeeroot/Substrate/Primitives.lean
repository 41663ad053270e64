import Yeeroot.Codec.Scale

/-!
# What the models take from Substrate

The runtime modules and the node are written against a fork of Substrate that is not part of
the repository.  Two of its types appear in most models, and are defined here as that code
documents them:

* `RawOrigin` and the `ensure_*` guards of the `system` module, with the messages they fail
  with;
* `DigestItem` of `runtime_primitives::generic`, the items of a header digest, with its codec:
  a type byte (`Other` `0`, `AuthoritiesChange` `1`, `ChangesTrieRoot` `2`, `Seal` `3`,
  `Consensus` `4`) followed by the variant's fields.

A header's digest is read back by scanning its items for the last one a reader accepts,
`logs().iter().rev().filter_map(reader).next()`; `lastFilterMap` is that scan, with the lemmas
the digest readers use.
-/

namespace Substrate

open Scale

/-! ## Origins -/

/-- `system::RawOrigin`. -/
inductive RawOrigin (AccountId : Type) where
  | root
  | signed (who : AccountId)
  | inherent
deriving DecidableEq

section Origin

variable {AccountId : Type}

/-- `ensure_signed`. -/
def ensureSigned : RawOrigin AccountId → Except String AccountId
  | .signed who => .ok who
  | _ => .error "bad origin: expected to be a signed origin"

/-- `ensure_root`. -/
def ensureRoot : RawOrigin AccountId → Except String Unit
  | .root => .ok ()
  | _ => .error "bad origin: expected to be a root origin"

/-- `ensure_inherent`. -/
def ensureInherent : RawOrigin AccountId → Except String Unit
  | .inherent => .ok ()
  | _ => .error "bad origin: expected to be an inherent origin"

end Origin

/-! ## Digest items -/

/-- `ConsensusEngineId`: four bytes. -/
abbrev ConsensusEngineId := FixedBytes 4

/-- `runtime_primitives::generic::DigestItem`. -/
inductive DigestItem (Hash AuthorityId SealSignature : Type) where
  | other (data : Bytes)
  | authoritiesChange (authorities : List AuthorityId)
  | changesTrieRoot (root : Hash)
  | seal (slot : UInt64) (signature : SealSignature)
  | consensus (engine : ConsensusEngineId) (data : Bytes)
deriving DecidableEq

/-- The codec of `DigestItem`: the `DigestItemType` byte, then the fields. -/
instance {Hash AuthorityId SealSignature : Type} [Codec Hash] [Codec AuthorityId]
    [Codec SealSignature] : Codec (DigestItem Hash AuthorityId SealSignature) where
  encode
    | .other data => 0 :: encode data
    | .authoritiesChange authorities => 1 :: encode authorities
    | .changesTrieRoot root => 2 :: encode root
    | .seal slot signature => 3 :: encode (slot, signature)
    | .consensus engine data => 4 :: encode (engine, data)
  decode
    | 0 :: bs => (decode bs).map fun (data, rest) => (.other data, rest)
    | 1 :: bs => (decode bs).map fun (authorities, rest) => (.authoritiesChange authorities, rest)
    | 2 :: bs => (decode bs).map fun (root, rest) => (.changesTrieRoot root, rest)
    | 3 :: bs => (decode bs).map fun ((slot, signature), rest) => (.seal slot signature, rest)
    | 4 :: bs => (decode bs).map fun ((engine, data), rest) => (.consensus engine data, rest)
    | _ => none

/-! ## Reading a digest -/

/-- `iter().rev().filter_map(f).next()`: the image of the last item `f` accepts. -/
def lastFilterMap {α β : Type} (f : α → Option β) (l : List α) : Option β :=
  (l.reverse.filterMap f).head?

section Read

variable {α β : Type} (f : α → Option β)

@[simp] lemma lastFilterMap_nil : lastFilterMap f [] = none := rfl

/-- An item at the end that the reader accepts is the one it returns. -/
lemma lastFilterMap_append_of_some (l : List α) {a : α} {b : β} (h : f a = some b) :
    lastFilterMap f (l ++ [a]) = some b := by
  simp [lastFilterMap, h]

/-- Items at the end that the reader rejects are skipped. -/
lemma lastFilterMap_append_of_none (l l' : List α) (h : ∀ a ∈ l', f a = none) :
    lastFilterMap f (l ++ l') = lastFilterMap f l := by
  have hnil : l'.reverse.filterMap f = [] := by
    rw [List.filterMap_eq_nil_iff]
    intro a ha
    exact h a (List.mem_reverse.mp ha)
  simp [lastFilterMap, hnil]

/-- A list the reader rejects throughout gives nothing. -/
lemma lastFilterMap_eq_none (l : List α) (h : ∀ a ∈ l, f a = none) : lastFilterMap f l = none := by
  simpa using lastFilterMap_append_of_none f [] l h

end Read

end Substrate

import Mathlib
import Yeeroot.Rust.Prelude

/-!
# GRANDPA's votes, voter sets and commits

`core/finality-grandpa` is the finality gadget the node's CRFG runs on.  Its crate root
(`lib.rs`) holds the vote and commit messages, the voter set with its supermajority
threshold, and the `Chain` the gadget asks for ancestry.

* A voter set is built from a list of `(id, weight)` pairs (`FromIterator`): the pairs are the
  voters in order, each id is looked up at its index, and the threshold is `threshold` of the
  total weight, `total - (total - 1) / 3`.
* `threshold_quorums_intersect`: two sets of voters that each weigh at least the threshold
  share voters weighing more than the faulty bound `(total - 1) / 3`.  That is what the
  threshold is for: no two conflicting supermajorities can both be honest.
* A commit travels compact, its precommits and their signatures in two lists.
  `Commit::from(CompactCommit::from(c)) = c` always, and the other way round exactly when both
  lists have the same length, which is what CRFG checks before it converts.

Block numbers are natural numbers here; weights are `u64`, as `UInt64`.
-/

namespace Yeeroot
namespace Grandpa

open Rust

/-! ## Votes and the chain -/

/-- `Prevote`: a vote for a block and its ancestors. -/
structure Prevote (H : Type) where
  targetHash : H
  targetNumber : ℕ
deriving DecidableEq, Repr

/-- `Precommit`: a vote for a block and its ancestors. -/
structure Precommit (H : Type) where
  targetHash : H
  targetNumber : ℕ
deriving DecidableEq, Repr

/-- `Error`: the one error of the chain. -/
inductive Error
  | notDescendent
deriving DecidableEq, Repr

/-- `Chain`: what the gadget asks of the block tree.  `ancestry base block` lists the blocks
from `block`'s parent back to, but not including, `base`, and fails when `block` does not
descend from `base`. -/
structure Chain (H : Type) where
  ancestry : H → H → Except Error (List H)
  bestChainContaining : H → Option (H × ℕ)

/-- `Chain::is_equal_or_descendent_of`, the trait's default method. -/
def Chain.isEqualOrDescendentOf {H : Type} [DecidableEq H] (chain : Chain H) (base block : H) :
    Bool :=
  if base = block then true
  else
    match chain.ancestry base block with
    | .ok _ => true
    | .error .notDescendent => false

/-- `Equivocation`: two votes of one voter in one round. -/
structure Equivocation (Id V S : Type) where
  roundNumber : UInt64
  identity : Id
  first : V × S
  second : V × S

/-! ## Commits -/

/-- `SignedPrecommit`. -/
structure SignedPrecommit (H S Id : Type) where
  precommit : Precommit H
  signature : S
  id : Id
deriving DecidableEq

/-- `Commit`: a target and the precommits that justify it. -/
structure Commit (H S Id : Type) where
  targetHash : H
  targetNumber : ℕ
  precommits : List (SignedPrecommit H S Id)
deriving DecidableEq

/-- `CompactCommit`: the precommits and their `(signature, id)` pairs in two lists. -/
structure CompactCommit (H S Id : Type) where
  targetHash : H
  targetNumber : ℕ
  precommits : List (Precommit H)
  authData : List (S × Id)
deriving DecidableEq

section Commits

variable {H S Id : Type}

/-- `From<CompactCommit> for Commit`: the two lists zipped, so the longer one is cut. -/
def Commit.ofCompact (commit : CompactCommit H S Id) : Commit H S Id :=
  ⟨commit.targetHash, commit.targetNumber,
    (commit.precommits.zip commit.authData).map fun (precommit, (signature, id)) =>
      ⟨precommit, signature, id⟩⟩

/-- `From<Commit> for CompactCommit`. -/
def CompactCommit.ofCommit (commit : Commit H S Id) : CompactCommit H S Id :=
  ⟨commit.targetHash, commit.targetNumber, commit.precommits.map fun signed => signed.precommit,
    commit.precommits.map fun signed => (signed.signature, signed.id)⟩

end Commits

/-! ## Voter sets -/

/-- `VoterInfo`: a voter's index in the set and its weight. -/
structure VoterInfo where
  canonIdx : ℕ
  weight : UInt64
deriving DecidableEq, Repr

/-- `threshold`: the total weight less the most that may be faulty, `(total - 1) / 3`. -/
def threshold (totalWeight : UInt64) : UInt64 :=
  let faulty := U64.saturatingSub totalWeight 1 / 3
  totalWeight - faulty

/-- `VoterSet`: the voters in order, the lookup of a voter by id, and the threshold. -/
structure VoterSet (Id : Type) where
  weights : Id → Option VoterInfo
  voters : List (Id × UInt64)
  threshold : UInt64

namespace VoterSet

variable {Id : Type}

/-- `VoterSet::info`. -/
def info (voterSet : VoterSet Id) (id : Id) : Option VoterInfo := voterSet.weights id

/-- `VoterSet::len`. -/
def len (voterSet : VoterSet Id) : ℕ := voterSet.voters.length

/-- `VoterSet::contains_key`. -/
def containsKey (voterSet : VoterSet Id) (id : Id) : Bool := (voterSet.weights id).isSome

/-- `VoterSet::weight_by_index`. -/
def weightByIndex (voterSet : VoterSet Id) (idx : ℕ) : Option UInt64 :=
  voterSet.voters[idx]?.map Prod.snd

/-- `VoterSet::total_weight`: the sum of the weights, in `u64`. -/
def totalWeight (voterSet : VoterSet Id) : UInt64 := (voterSet.voters.map Prod.snd).sum

variable [DecidableEq Id]

/-- The loop of `FromIterator::from_iter` from index `idx` on: each pair is pushed onto the
voters, inserted into the lookup (replacing an earlier entry of the same id), and added to
the total. -/
def fromIterLoop :
    ℕ → List (Id × UInt64) → List (Id × UInt64) × (Id → Option VoterInfo) × UInt64 →
      List (Id × UInt64) × (Id → Option VoterInfo) × UInt64
  | _, [], acc => acc
  | idx, (id, weight) :: rest, (voters, weights, totalWeight) =>
    fromIterLoop (idx + 1) rest
      (voters ++ [(id, weight)], fun x => if x = id then some ⟨idx, weight⟩ else weights x,
        totalWeight + weight)

/-- `FromIterator<(Id, u64)> for VoterSet`. -/
def fromIter (iterable : List (Id × UInt64)) : VoterSet Id :=
  let (voters, weights, totalWeight) := fromIterLoop 0 iterable ([], fun _ => none, 0)
  ⟨weights, voters, Grandpa.threshold totalWeight⟩

end VoterSet

/-! ## The voter set a list builds -/

namespace VoterSet

variable {Id : Type} [DecidableEq Id]

lemma fromIterLoop_eq : ∀ (idx : ℕ) (rest voters : List (Id × UInt64))
    (weights : Id → Option VoterInfo) (totalWeight : UInt64),
    (fromIterLoop idx rest (voters, weights, totalWeight)).1 = voters ++ rest ∧
      (fromIterLoop idx rest (voters, weights, totalWeight)).2.2 =
        totalWeight + (rest.map Prod.snd).sum
  | _, [], voters, _, _ => by simp [fromIterLoop]
  | idx, (id, weight) :: rest, voters, weights, totalWeight => by
    obtain ⟨hvoters, htotal⟩ := fromIterLoop_eq (idx + 1) rest (voters ++ [(id, weight)])
      (fun x => if x = id then some ⟨idx, weight⟩ else weights x) (totalWeight + weight)
    rw [fromIterLoop, hvoters, htotal]
    simp [add_assoc]

@[simp] lemma voters_fromIter (iterable : List (Id × UInt64)) :
    (fromIter iterable).voters = iterable := by
  simpa [fromIter] using (fromIterLoop_eq 0 iterable [] (fun _ => none) 0).1

/-- The threshold is that of the total weight of the voters. -/
lemma threshold_fromIter (iterable : List (Id × UInt64)) :
    (fromIter iterable).threshold = Grandpa.threshold (fromIter iterable).totalWeight := by
  have hloop := fromIterLoop_eq 0 iterable [] (fun _ => none) 0
  simp only [fromIter, totalWeight]
  rw [hloop.1, hloop.2]
  simp

end VoterSet

/-! ## The threshold -/

/-- A `u64` sum read as a natural number: the sum of the parts, wrapped. -/
lemma toNat_sum_uint64 : ∀ l : List UInt64, l.sum.toNat = (l.map UInt64.toNat).sum % 2 ^ 64
  | [] => rfl
  | a :: l => by
    rw [List.sum_cons, UInt64.toNat_add, toNat_sum_uint64 l, List.map_cons, List.sum_cons,
      Nat.add_mod_mod]

/-- The weights of a list of voters by index add up to their sum. -/
lemma sum_range_getD (l : List UInt64) :
    ∑ i ∈ Finset.range l.length, (l.getD i 0).toNat = (l.map UInt64.toNat).sum := by
  induction l with
  | nil => simp
  | cons a l ih =>
    rw [List.length_cons, Finset.sum_range_succ', List.map_cons, List.sum_cons]
    simp only [List.getD_cons_succ, List.getD_cons_zero, ih]
    omega

/-- `threshold` on natural numbers: the total less `(total - 1) / 3`. -/
lemma toNat_threshold (totalWeight : UInt64) :
    (threshold totalWeight).toNat = totalWeight.toNat - (totalWeight.toNat - 1) / 3 := by
  have hfaulty : (U64.saturatingSub totalWeight 1 / 3).toNat = (totalWeight.toNat - 1) / 3 := by
    rw [UInt64.toNat_div, U64.saturatingSub]
    split_ifs with h
    · rw [UInt64.toNat_sub_of_le _ _ h]
      rfl
    · have : totalWeight = 0 := by
        rw [UInt64.le_iff_toNat_le] at h
        apply UInt64.toNat_inj.mp
        simp only [UInt64.toNat_one] at h
        simp only [UInt64.toNat_zero]
        omega
      simp [this]
  have hle : U64.saturatingSub totalWeight 1 / 3 ≤ totalWeight := by
    rw [UInt64.le_iff_toNat_le, hfaulty]
    omega
  rw [threshold, UInt64.toNat_sub_of_le _ _ hle, hfaulty]

/-- **Two supermajorities overlap in more than the faulty weight.**  In the voter set of a
list whose weights add up to a positive total that fits in a `u64`, two sets of voters
that each weigh at least the threshold share voters weighing more than `(total - 1) / 3`.
Weights are read by index, as the round reads them through `weight_by_index`. -/
theorem threshold_quorums_intersect {Id : Type} [DecidableEq Id] (voters : List (Id × UInt64))
    (hpos : 0 < ((voters.map Prod.snd).map UInt64.toNat).sum)
    (hfit : ((voters.map Prod.snd).map UInt64.toNat).sum < 2 ^ 64)
    (A B : Finset ℕ) (hA : A ⊆ Finset.range voters.length) (hB : B ⊆ Finset.range voters.length)
    (hweightA : (VoterSet.fromIter voters).threshold.toNat ≤
      ∑ i ∈ A, (((VoterSet.fromIter voters).weightByIndex i).getD 0).toNat)
    (hweightB : (VoterSet.fromIter voters).threshold.toNat ≤
      ∑ i ∈ B, (((VoterSet.fromIter voters).weightByIndex i).getD 0).toNat) :
    (((voters.map Prod.snd).map UInt64.toNat).sum - 1) / 3 <
      ∑ i ∈ A ∩ B, (((VoterSet.fromIter voters).weightByIndex i).getD 0).toNat := by
  set w : ℕ → ℕ := fun i => (((VoterSet.fromIter voters).weightByIndex i).getD 0).toNat
  set total := ((voters.map Prod.snd).map UInt64.toNat).sum
  -- the weight by index is the list of weights read at the index
  have hw : ∀ i, w i = ((voters.map Prod.snd).getD i 0).toNat := by
    intro i
    simp only [w, VoterSet.weightByIndex, VoterSet.voters_fromIter, List.getD_eq_getElem?_getD,
      List.getElem?_map]
  have htotal : (Finset.range voters.length).sum w = total := by
    have := sum_range_getD (voters.map Prod.snd)
    rw [List.length_map] at this
    simpa only [hw] using this
  have hthreshold : (VoterSet.fromIter voters).threshold.toNat = total - (total - 1) / 3 := by
    rw [VoterSet.threshold_fromIter, toNat_threshold, VoterSet.totalWeight,
      VoterSet.voters_fromIter, toNat_sum_uint64, Nat.mod_eq_of_lt hfit]
  -- the union of the two sets weighs no more than all the voters
  have hunion : (A ∪ B).sum w ≤ total :=
    htotal ▸ Finset.sum_le_sum_of_subset (Finset.union_subset hA hB)
  have hsplit : (A ∪ B).sum w + (A ∩ B).sum w = A.sum w + B.sum w := Finset.sum_union_inter
  rw [hthreshold] at hweightA hweightB
  omega

/-- Four voters of weight one: the threshold is three, and two sets of three share two. -/
theorem threshold_quorums_intersect_four :
    ((VoterSet.fromIter [(0, 1), (1, 1), (2, 1), (3, (1 : UInt64))]).threshold.toNat ≤
      ∑ i ∈ ({0, 1, 2} : Finset ℕ),
        (((VoterSet.fromIter [(0, 1), (1, 1), (2, 1), (3, (1 : UInt64))]).weightByIndex i).getD
          0).toNat) ∧
    ((([(0, 1), (1, 1), (2, 1), (3, (1 : UInt64))].map Prod.snd).map UInt64.toNat).sum - 1) / 3 <
      ∑ i ∈ ({0, 1, 2} : Finset ℕ) ∩ {1, 2, 3},
        (((VoterSet.fromIter [(0, 1), (1, 1), (2, 1), (3, (1 : UInt64))]).weightByIndex i).getD
          0).toNat :=
  ⟨by decide, threshold_quorums_intersect ([(0, 1), (1, 1), (2, 1), (3, 1)] : List (ℕ × UInt64))
    (by decide) (by decide) {0, 1, 2} {1, 2, 3} (by decide) (by decide) (by decide) (by decide)⟩

/-! ## Compact commits -/

section Commits

variable {H S Id : Type}

/-- A commit survives the compact form. -/
lemma ofCompact_ofCommit (commit : Commit H S Id) :
    Commit.ofCompact (CompactCommit.ofCommit commit) = commit := by
  obtain ⟨targetHash, targetNumber, precommits⟩ := commit
  simp only [Commit.ofCompact, CompactCommit.ofCommit, Commit.mk.injEq, true_and]
  induction precommits with
  | nil => rfl
  | cons signed rest ih => simp [ih]

/-- A compact commit survives the full form exactly when it has one `(signature, id)` pair per
precommit; otherwise the full form keeps the shorter of the two lists' lengths. -/
lemma ofCommit_ofCompact (commit : CompactCommit H S Id) :
    CompactCommit.ofCommit (Commit.ofCompact commit) = commit ↔
      commit.precommits.length = commit.authData.length := by
  obtain ⟨targetHash, targetNumber, precommits, authData⟩ := commit
  simp only [CompactCommit.ofCommit, Commit.ofCompact, CompactCommit.mk.injEq, true_and,
    List.map_map]
  constructor
  · rintro ⟨hp, ha⟩
    have h1 := congrArg List.length hp
    have h2 := congrArg List.length ha
    simp only [List.length_map, List.length_zip] at h1 h2
    omega
  · -- each list is a projection of the zipped pairs
    intro hlen
    constructor
    · refine Eq.trans (List.map_congr_left fun pair _ => ?_) (List.map_fst_zip hlen.le)
      obtain ⟨precommit, signature, id⟩ := pair
      rfl
    · refine Eq.trans (List.map_congr_left fun pair _ => ?_) (List.map_snd_zip hlen.ge)
      obtain ⟨precommit, signature, id⟩ := pair
      rfl

end Commits

end Grandpa
end Yeeroot

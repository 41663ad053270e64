import Yeeroot.Grandpa.Round
import Yeeroot.Grandpa.VoteGraphSearch

/-!
# The round's invariant

A round is driven by its voter: prevotes and precommits are imported in any order, and the
precommit-GHOST is asked for at any time.  Over every such run from `Round::new`, on a chain
that answers from a block tree (`Chain.Lawful`) and with votes whose numbers are their blocks'
numbers, the round keeps `Round.Inv`:

* each tracker counts every voter it has seen once, with its weight (`VoteTracker.Inv`);
* the equivocators' bitfield holds exactly the bits of the voters a tracker has seen
  equivocate;
* the vote-graph has `VoteGraph.Inv` for the votes cast by the voters' first votes on blocks
  above the base, each weighing its voter's bit: a node's cumulative vote holds bit `2 i`
  exactly when voter `i`'s first prevote is on the node or above, and bit `2 i + 1` for its
  precommit.

Every bitfield the round merges is blank or has the words of its voters (`Bitfield.Fits`), so
no `expect` of the round, the vote-graph or the bitfields fires: the imports, `update` and the
GHOST searches never panic.  The vote weights read as sets of bits (`VoteWeight.bits`), which
is how `VoteGraph.Inv` is instantiated here.

This module proves the invariant of `Round::new` and of the tracking of one vote
(`trackVote_inv`), once for both kinds of vote (`VoteKind.Lawful`); a round that follows another
(`Round.Follows`) keeps its base, its voters and its marked equivocators.  The calls and the
runs are assembled in `Grandpa.RoundRun`.
-/

namespace Yeeroot
namespace Grandpa

open Rust

/-! ## Voter sets -/

namespace VoterSet

variable {Id : Type}

/-- A voter set whose lookup agrees with its list: the voter an id looks up sits at its index,
with its weight. -/
def WellFormed (voterSet : VoterSet Id) : Prop :=
  ∀ id info, voterSet.info id = some info → voterSet.voters[info.canonIdx]? = some (id, info.weight)

section WellFormed

variable {voterSet : VoterSet Id} (hwf : voterSet.WellFormed)
include hwf

theorem WellFormed.canonIdx_lt {id : Id} {info : VoterInfo} (h : voterSet.info id = some info) :
    info.canonIdx < voterSet.len :=
  (List.getElem?_eq_some_iff.mp (hwf id info h)).1

theorem WellFormed.weightByIndex {id : Id} {info : VoterInfo}
    (h : voterSet.info id = some info) :
    voterSet.weightByIndex info.canonIdx = some info.weight := by
  simp [VoterSet.weightByIndex, hwf id info h]

/-- Two voters at one index are one voter. -/
theorem WellFormed.eq_of_canonIdx_eq {id id' : Id} {info info' : VoterInfo}
    (h : voterSet.info id = some info) (h' : voterSet.info id' = some info')
    (hidx : info.canonIdx = info'.canonIdx) : id = id' := by
  have h1 := hwf id info h
  have h2 := hwf id' info' h'
  rw [hidx, h2] at h1
  simp only [Option.some.injEq, Prod.mk.injEq] at h1
  exact h1.1.symm

end WellFormed

variable [DecidableEq Id]

/-- The loop of `from_iter` keeps the lookup pointing at the pushed voters. -/
theorem fromIterLoop_wellFormed :
    ∀ (idx : ℕ) (rest voters : List (Id × UInt64)) (weights : Id → Option VoterInfo)
      (totalWeight : UInt64), voters.length = idx →
      (∀ id info, weights id = some info → voters[info.canonIdx]? = some (id, info.weight)) →
        ∀ id info, (fromIterLoop idx rest (voters, weights, totalWeight)).2.1 id = some info →
          (fromIterLoop idx rest (voters, weights, totalWeight)).1[info.canonIdx]? =
            some (id, info.weight)
  | _, [], _, _, _, _, hweights => hweights
  | idx, (id, weight) :: rest, voters, weights, totalWeight, hlen, hweights => by
    apply fromIterLoop_wellFormed (idx + 1) rest
    · simp [hlen]
    · intro x info hx
      by_cases hxid : x = id
      · -- the pushed voter, at the end
        rw [if_pos hxid] at hx
        cases hx
        simp [hlen, hxid]
      · rw [if_neg hxid] at hx
        have hold := hweights x info hx
        rw [List.getElem?_append_left (List.getElem?_eq_some_iff.mp hold).1, hold]

/-- **A voter set built from a list is well formed**, whether or not its ids repeat. -/
theorem wellFormed_fromIter (iterable : List (Id × UInt64)) : (fromIter iterable).WellFormed := by
  intro id info h
  exact fromIterLoop_wellFormed 0 iterable [] (fun _ => none) 0 rfl (by simp) id info h

end VoterSet

/-! ## Bitfields of the round's shape -/

namespace Bitfield

/-- A bitfield of the round's shape: blank, or live with the words of `nVoters` voters. -/
def Fits (nVoters : ℕ) (bitfield : Bitfield) : Prop :=
  bitfield = .blank ∨ bitfield.words = (nVoters * 2 + 63) / 64

variable {nVoters : ℕ}

theorem fits_blank (nVoters : ℕ) : Fits nVoters .blank := .inl rfl

/-- Two bitfields of the round's shape merge, into one of its shape. -/
theorem merge_fits {a b : Bitfield} (ha : a.Fits nVoters) (hb : b.Fits nVoters) :
    ∃ c, merge a b = .ok c ∧ c.Fits nVoters := by
  rcases ha with rfl | ha
  · exact ⟨b, by cases b <;> rfl, hb⟩
  rcases hb with rfl | hb
  · exact ⟨a, by cases a <;> rfl, .inr ha⟩
  cases a with
  | blank => exact ⟨b, by cases b <;> rfl, .inr hb⟩
  | live la =>
    cases b with
    | blank => exact ⟨.live la, rfl, .inr ha⟩
    | live lb =>
      simp only [words] at ha hb
      refine ⟨.live ⟨List.zipWith (· ||| ·) la.bits lb.bits⟩, by simp [merge, ha, hb], .inr ?_⟩
      simp [words, ha, hb]

/-- A bit of one voter's pair, set in live words of the round's shape, keeps their number and
adds the bit. -/
theorem live_setBit_fits {live : LiveBitfield} (hlen : live.bits.length = (nVoters * 2 + 63) / 64)
    {bit : ℕ} (hbit : bit < nVoters * 2) :
    ∃ live', live.setBit bit nVoters = .ok live' ∧ live'.bits.length = live.bits.length ∧
      ∀ k, live'.bit k = (live.bit k || decide (k = bit)) := by
  obtain ⟨live', hset⟩ := (live.setBit_ok_iff bit nVoters).mpr (by omega)
  refine ⟨live', hset, ?_, LiveBitfield.bit_setBit hset⟩
  simp only [LiveBitfield.setBit] at hset
  split at hset
  · cases hset
    simp
  · cases hset

/-- A bit of one voter's pair, set in a blank or fitting bitfield, gives a fitting bitfield
with that bit added. -/
theorem setBit_fits {bitfield : Bitfield} (hfit : bitfield.Fits nVoters) {bit : ℕ}
    (hbit : bit < nVoters * 2) :
    ∃ bitfield', bitfield.setBit bit nVoters = (bitfield', .ok ()) ∧ bitfield'.Fits nVoters ∧
      ∀ k, bitfield'.bit k = (bitfield.bit k || decide (k = bit)) := by
  -- a blank bitfield is set in fresh words
  cases bitfield with
  | blank =>
    obtain ⟨live', hset, hlen, hbits⟩ :=
      live_setBit_fits (LiveBitfield.length_withVoters nVoters) hbit
    refine ⟨.live live', by simp [setBit, hset], .inr (by simp [words, hlen]), fun k => ?_⟩
    simp [Bitfield.bit, hbits]
  | live l =>
    have hlen : l.bits.length = (nVoters * 2 + 63) / 64 := by
      rcases hfit with h | h
      · cases h
      · exact h
    obtain ⟨live', hset, hlen', hbits⟩ := live_setBit_fits hlen hbit
    refine ⟨.live live', by simp [setBit, hset], .inr (by simp [words, hlen', hlen]), fun k => ?_⟩
    simp [Bitfield.bit, hbits]

end Bitfield

/-- A fresh bitfield with the bit of one voter's pair: live, of the round's shape, with that
bit alone. -/
theorem LiveBitfield.withVoters_setBit {nVoters bit : ℕ} (hbit : bit < nVoters * 2) :
    ∃ live, (withVoters nVoters).setBit bit nVoters = .ok live ∧
      (Bitfield.live live).Fits nVoters ∧ ∀ k, live.bit k = decide (k = bit) := by
  obtain ⟨bitfield', hset, hfit, hbits⟩ := Bitfield.setBit_fits (Bitfield.fits_blank nVoters) hbit
  simp only [Bitfield.setBit] at hset
  split at hset
  · rename_i live hlive
    simp only [Prod.mk.injEq] at hset
    obtain ⟨rfl, -⟩ := hset
    refine ⟨live, hlive, hfit, fun k => ?_⟩
    simpa [Bitfield.bit] using hbits k
  · simp at hset

/-! ## Vote weights as sets of bits -/

namespace VoteWeight

variable {Id : Type}

/-- The bits a vote weight holds. -/
def bits (weight : VoteWeight) : Set ℕ := {k | weight.bitfield.bit k = true}

/-- A vote weight of the round's shape. -/
def Good (nVoters : ℕ) (weight : VoteWeight) : Prop := weight.bitfield.Fits nVoters

/-- **The vote weights are a lawful vote value**: the blank default holds no bit, and the
addition of two weights of the round's shape succeeds and is the union of their bits. -/
theorem ops_lawful (nVoters : ℕ) : VoteWeight.ops.Lawful bits (Good nVoters) where
  default_good := Bitfield.fits_blank nVoters
  α_default := by
    ext k
    simp [bits, ops, Bitfield.bit]
  addAssign_ok a b ha hb := by
    obtain ⟨c, hc, hfit⟩ := Bitfield.merge_fits ha hb
    refine ⟨⟨c⟩, by simp [ops, addAssign, hc], hfit, ?_⟩
    ext k
    simp [bits, Bitfield.bit_merge hc]

/-- A sum over the voters a bitfield's words can hold is one over the voters of the set, when
the weights past the set are zero. -/
theorem sum_range_words {nVoters : ℕ} {bitfield : Bitfield} (hfit : bitfield.Fits nVoters)
    (offset : ℕ) (w : ℕ → UInt64) (hw : ∀ i, nVoters ≤ i → w i = 0) :
    ∑ i ∈ Finset.range (32 * bitfield.words),
        (if bitfield.bit (2 * i + offset) then w i else 0) =
      ∑ i ∈ Finset.range nVoters, if bitfield.bit (2 * i + offset) then w i else 0 := by
  rcases hfit with rfl | hwords
  · simp [Bitfield.bit]
  · have hle : nVoters ≤ 32 * bitfield.words := by omega
    symm
    apply Finset.sum_subset (Finset.range_subset_range.mpr hle)
    intro i _ hi
    simp [hw i (by simpa using hi)]

variable {voterSet : VoterSet Id}

/-- The weight of the voters past the set is zero. -/
theorem weightByIndex_getD_of_le {i : ℕ} (hi : voterSet.len ≤ i) :
    (voterSet.weightByIndex i).getD 0 = 0 := by
  simp [VoterSet.weightByIndex, VoterSet.len] at hi ⊢
  simp [List.getElem?_eq_none hi]

/-- **`total_weight` of a vote weight**: with the equivocators merged in, the sums of the
weights of the voters whose prevote bit, and whose precommit bit, the weight or the
equivocators hold. -/
theorem totalWeight_eq {weight : VoteWeight} {equivocators : Bitfield}
    (hw : weight.Good voterSet.len) (he : equivocators.Fits voterSet.len) :
    weight.totalWeight equivocators voterSet = .ok
      ⟨∑ i ∈ Finset.range voterSet.len,
          if weight.bitfield.bit (2 * i) || equivocators.bit (2 * i) then
            (voterSet.weightByIndex i).getD 0 else 0,
        ∑ i ∈ Finset.range voterSet.len,
          if weight.bitfield.bit (2 * i + 1) || equivocators.bit (2 * i + 1) then
            (voterSet.weightByIndex i).getD 0 else 0⟩ := by
  obtain ⟨c, hc, hfit⟩ := Bitfield.merge_fits hw he
  have hzero : ∀ i, voterSet.len ≤ i → (voterSet.weightByIndex i).getD 0 = 0 :=
    fun _ hi => weightByIndex_getD_of_le hi
  have hpre := sum_range_words hfit 0 _ hzero
  have hpost := sum_range_words hfit 1 _ hzero
  simp only [add_zero] at hpre
  simp only [totalWeight, hc]
  rw [totalWeight_eq_sum, hpre, hpost]
  simp only [Bitfield.bit_merge hc]

/-- The addition of the round's weights is safe for the searches. -/
theorem addAssign_good {nVoters : ℕ} {a b : VoteWeight} (ha : a.Good nVoters)
    (hb : b.Good nVoters) : ∃ c, VoteWeight.ops.addAssign a b = .ok c ∧ c.Good nVoters := by
  obtain ⟨c, hc, hgood, -⟩ := (ops_lawful nVoters).addAssign_ok a b ha hb
  exact ⟨c, hc, hgood⟩

end VoteWeight

/-! ## Vote trackers -/

namespace VoteMultiplicity

variable {Vote Signature : Type}

/-- The voter's first vote, which an equivocation keeps first. -/
def first : VoteMultiplicity Vote Signature → Vote
  | single v _ => v
  | equivocated (v, _) _ => v

/-- Whether the voter has equivocated. -/
def isEquivocated : VoteMultiplicity Vote Signature → Bool
  | single _ _ => false
  | equivocated _ _ => true

end VoteMultiplicity

namespace VoteTracker

variable {Id Vote Signature : Type} [DecidableEq Id]

/-- The weight of the voters a tracker has seen, each counted once. -/
def seenWeight (voterSet : VoterSet Id) (tracker : VoteTracker Id Vote Signature) : UInt64 :=
  (tracker.votes.keys.map fun id => ((voterSet.info id).map VoterInfo.weight).getD 0).sum

/-- The tracker's invariant: it has seen only voters of the set, and its current weight is
theirs, each once. -/
structure Inv (voterSet : VoterSet Id) (tracker : VoteTracker Id Vote Signature) : Prop where
  known : ∀ id ∈ tracker.votes, (voterSet.info id).isSome
  currentWeight : tracker.currentWeight = seenWeight voterSet tracker

theorem inv_new (voterSet : VoterSet Id) :
    (VoteTracker.new : VoteTracker Id Vote Signature).Inv voterSet :=
  ⟨by simp [VoteTracker.new], rfl⟩

section AddVote

variable [DecidableEq Vote] [DecidableEq Signature]

/-- **What `add_vote` does.**  A voter not seen is tracked with its vote and its weight added;
a voter seen once with another vote becomes an equivocator, its first vote kept first;
anything else leaves the tracker as it is. -/
theorem addVote_cases (tracker : VoteTracker Id Vote Signature) (id : Id) (vote : Vote)
    (signature : Signature) (weight : UInt64) :
    (tracker.votes.lookup id = none ∧ tracker.addVote id vote signature weight =
      (⟨tracker.votes.insert id (.single vote signature), tracker.currentWeight + weight⟩,
        some (.single vote signature))) ∨
    (∃ v s, tracker.votes.lookup id = some (.single v s) ∧
      tracker.addVote id vote signature weight =
        ({ tracker with votes := tracker.votes.insert id (.equivocated (v, s) (vote, signature)) },
          some (.equivocated (v, s) (vote, signature)))) ∨
    tracker.addVote id vote signature weight = (tracker, none) := by
  unfold addVote
  cases hlook : tracker.votes.lookup id with
  | none => exact .inl ⟨rfl, rfl⟩
  | some multiplicity =>
    by_cases hcont : multiplicity.contains vote signature = true
    · exact .inr (.inr (by simp [hcont]))
    · cases multiplicity with
      | single v s => exact .inr (.inl ⟨v, s, rfl, by simp [hcont]⟩)
      | equivocated a b => exact .inr (.inr (by simp [hcont]))

/-- `add_vote` with the weight the voter set gives keeps the tracker's invariant. -/
theorem Inv.addVote {voterSet : VoterSet Id} {tracker : VoteTracker Id Vote Signature}
    (hinv : tracker.Inv voterSet) {id : Id} {info : VoterInfo}
    (hinfo : voterSet.info id = some info) (vote : Vote) (signature : Signature) :
    (tracker.addVote id vote signature info.weight).1.Inv voterSet := by
  rcases addVote_cases tracker id vote signature info.weight with
    ⟨hnone, hrun⟩ | ⟨v, s, hsingle, hrun⟩ | hrun
  · -- a new voter: its weight is added once
    rw [hrun]
    have hid : id ∉ tracker.votes.keys := by
      rw [← AList.mem_keys, ← AList.lookup_isSome, hnone]
      simp
    refine ⟨fun x hx => ?_, ?_⟩
    · rcases (AList.mem_insert _).mp hx with rfl | hx
      · simp [hinfo]
      · exact hinv.known x hx
    · simp only [seenWeight, AList.keys_insert, List.erase_of_not_mem hid, List.map_cons,
        List.sum_cons, hinfo, Option.map_some, Option.getD_some]
      rw [hinv.currentWeight, seenWeight, add_comm]
  · -- an equivocator: the same voters, in another order
    rw [hrun]
    have hid : id ∈ tracker.votes := by
      rw [← AList.lookup_isSome, hsingle]
      rfl
    refine ⟨fun x hx => ?_, ?_⟩
    · rcases (AList.mem_insert _).mp hx with rfl | hx
      · exact hinv.known x hid
      · exact hinv.known x hx
    rw [hinv.currentWeight, seenWeight, seenWeight, AList.keys_insert]
    exact ((List.perm_cons_erase (AList.mem_keys.mp hid)).map _).sum_eq
  · rw [hrun]
    exact hinv

end AddVote

variable {H : Type}

/-- Bit `k` is the bit, at `offset` in its voter's pair, of a voter the tracker has seen whose
first vote targets `t`. -/
def FirstOn (voterSet : VoterSet Id) (target : Vote → H) (offset : ℕ)
    (tracker : VoteTracker Id Vote Signature) (t : H) (k : ℕ) : Prop :=
  ∃ id info m, voterSet.info id = some info ∧ k = 2 * info.canonIdx + offset ∧
    tracker.votes.lookup id = some m ∧ target m.first = t

/-- Bit `k` is the bit, at `offset` in its voter's pair, of a voter the tracker has seen
equivocate. -/
def EquivocatorAt (voterSet : VoterSet Id) (offset : ℕ) (tracker : VoteTracker Id Vote Signature)
    (k : ℕ) : Prop :=
  ∃ id info m, voterSet.info id = some info ∧ k = 2 * info.canonIdx + offset ∧
    tracker.votes.lookup id = some m ∧ m.isEquivocated = true

section Effects

variable {voterSet : VoterSet Id} {target : Vote → H} {offset : ℕ}
  {tracker : VoteTracker Id Vote Signature} {id : Id} {info : VoterInfo} (vote : Vote)
  (signature : Signature)

/-- A new voter's first vote adds its bit on its target. -/
theorem firstOn_insert_single (hinfo : voterSet.info id = some info)
    (hnone : tracker.votes.lookup id = none) (weight : UInt64) (t : H) (k : ℕ) :
    FirstOn voterSet target offset
        ⟨tracker.votes.insert id (.single vote signature), weight⟩ t k ↔
      FirstOn voterSet target offset tracker t k ∨
        (k = 2 * info.canonIdx + offset ∧ target vote = t) := by
  constructor
  · rintro ⟨x, i, m, hx, hk, hm, ht⟩
    by_cases hxid : x = id
    · subst hxid
      rw [AList.lookup_insert] at hm
      cases hm
      rw [hinfo] at hx
      cases hx
      exact .inr ⟨hk, ht⟩
    · rw [AList.lookup_insert_ne hxid] at hm
      exact .inl ⟨x, i, m, hx, hk, hm, ht⟩
  · rintro (⟨x, i, m, hx, hk, hm, ht⟩ | ⟨hk, ht⟩)
    · have hxid : x ≠ id := by
        rintro rfl
        rw [hnone] at hm
        cases hm
      exact ⟨x, i, m, hx, hk, by rw [AList.lookup_insert_ne hxid, hm], ht⟩
    · exact ⟨id, info, _, hinfo, hk, AList.lookup_insert _, ht⟩

/-- A new voter is no equivocator. -/
theorem equivocatorAt_insert_single (hnone : tracker.votes.lookup id = none) (weight : UInt64)
    (k : ℕ) :
    EquivocatorAt voterSet offset ⟨tracker.votes.insert id (.single vote signature), weight⟩ k ↔
      EquivocatorAt voterSet offset tracker k := by
  constructor
  · rintro ⟨x, i, m, hx, hk, hm, heq⟩
    by_cases hxid : x = id
    · subst hxid
      rw [AList.lookup_insert] at hm
      cases hm
      cases heq
    · rw [AList.lookup_insert_ne hxid] at hm
      exact ⟨x, i, m, hx, hk, hm, heq⟩
  · rintro ⟨x, i, m, hx, hk, hm, heq⟩
    have hxid : x ≠ id := by
      rintro rfl
      rw [hnone] at hm
      cases hm
    exact ⟨x, i, m, hx, hk, by rw [AList.lookup_insert_ne hxid, hm], heq⟩

/-- An equivocation keeps every voter's first vote. -/
theorem firstOn_insert_equivocated {v : Vote} {s : Signature}
    (hsingle : tracker.votes.lookup id = some (.single v s)) (t : H) (k : ℕ) :
    FirstOn voterSet target offset
        { tracker with votes := tracker.votes.insert id (.equivocated (v, s) (vote, signature)) }
        t k ↔
      FirstOn voterSet target offset tracker t k := by
  constructor
  · rintro ⟨x, i, m, hx, hk, hm, ht⟩
    by_cases hxid : x = id
    · subst hxid
      rw [AList.lookup_insert] at hm
      cases hm
      exact ⟨x, i, _, hx, hk, hsingle, ht⟩
    · rw [AList.lookup_insert_ne hxid] at hm
      exact ⟨x, i, m, hx, hk, hm, ht⟩
  · rintro ⟨x, i, m, hx, hk, hm, ht⟩
    by_cases hxid : x = id
    · subst hxid
      rw [hsingle] at hm
      cases hm
      exact ⟨x, i, _, hx, hk, AList.lookup_insert _, ht⟩
    · exact ⟨x, i, m, hx, hk, by rw [AList.lookup_insert_ne hxid, hm], ht⟩

/-- An equivocation adds the voter's bit among the equivocators. -/
theorem equivocatorAt_insert_equivocated (hinfo : voterSet.info id = some info) {v : Vote}
    {s : Signature} (hsingle : tracker.votes.lookup id = some (.single v s)) (k : ℕ) :
    EquivocatorAt voterSet offset
        { tracker with votes := tracker.votes.insert id (.equivocated (v, s) (vote, signature)) }
        k ↔
      EquivocatorAt voterSet offset tracker k ∨ k = 2 * info.canonIdx + offset := by
  constructor
  · rintro ⟨x, i, m, hx, hk, hm, heq⟩
    by_cases hxid : x = id
    · subst hxid
      rw [hinfo] at hx
      cases hx
      exact .inr hk
    · rw [AList.lookup_insert_ne hxid] at hm
      exact .inl ⟨x, i, m, hx, hk, hm, heq⟩
  · rintro (⟨x, i, m, hx, hk, hm, heq⟩ | hk)
    · have hxid : x ≠ id := by
        rintro rfl
        rw [hsingle] at hm
        cases hm
        cases heq
      exact ⟨x, i, m, hx, hk, by rw [AList.lookup_insert_ne hxid, hm], heq⟩
    · exact ⟨id, info, _, hinfo, hk, AList.lookup_insert _, rfl⟩

end Effects

end VoteTracker

namespace Round

variable {Id : Type} {voterSet : VoterSet Id} {equivocators : Bitfield}

/-- The GHOST and finality condition is safe for the searches. -/
theorem weightAtLeast_safe (he : equivocators.Fits voterSet.len) (kind : TotalWeight → UInt64)
    (threshold : UInt64) :
    SearchSafe VoteWeight.ops (VoteWeight.Good voterSet.len)
      (weightAtLeast equivocators voterSet kind threshold) where
  addAssign_ok _ _ := VoteWeight.addAssign_good
  condition_ok v hv := exists_ok_of_ne_error fun _ => by
    simp [weightAtLeast, VoteWeight.totalWeight_eq hv he]

/-- The condition of the round-estimate is safe for the searches. -/
theorem possibleToPrecommit_safe (he : equivocators.Fits voterSet.len)
    (currentPrecommits remainingCommitVotes additionalEquiv threshold : UInt64) :
    SearchSafe VoteWeight.ops (VoteWeight.Good voterSet.len)
      (possibleToPrecommit equivocators voterSet currentPrecommits remainingCommitVotes
        additionalEquiv threshold) where
  addAssign_ok _ _ := VoteWeight.addAssign_good
  condition_ok v hv := exists_ok_of_ne_error fun _ => by
    simp [possibleToPrecommit, VoteWeight.totalWeight_eq hv he]

end Round

/-! ## The graph's votes as bits -/

namespace VoteGraph

variable {H : Type} [DecidableEq H] {T : BlockTree H} {nVoters : ℕ}

/-- The votes cast into a graph, read as bits on blocks: bit `k` is cast on `t` exactly when
`t` is on or above the base and `Cast t k`. -/
def CastsAs (T : BlockTree H) (graph : VoteGraph H VoteWeight) (votes : List (H × VoteWeight))
    (Cast : H → ℕ → Prop) : Prop :=
  ∀ t k, (∃ w, (t, w) ∈ votes ∧ k ∈ w.bits) ↔ T.Descends graph.base t ∧ Cast t k

/-- **Inserting a vote of one bit.**  Above the base the vote becomes a cast vote and the
invariant holds with the bit cast on its block; elsewhere it is the chain's error, and what is
cast stays as it was, the new bit being on a block not above the base. -/
theorem insert_one_bit {graph : VoteGraph H VoteWeight} {votes : List (H × VoteWeight)}
    (hinv : Inv T VoteWeight.bits (VoteWeight.Good nVoters) graph votes)
    {Cast Cast' : H → ℕ → Prop} (hcasts : graph.CastsAs T votes Cast) {chain : Chain H}
    (hchain : chain.Lawful T) {hash : H} {weight : VoteWeight} (hgood : weight.Good nVoters)
    {bit : ℕ} (hbits : ∀ k, k ∈ weight.bits ↔ k = bit)
    (hcast' : ∀ t k, Cast' t k ↔ Cast t k ∨ (k = bit ∧ hash = t)) :
    (T.Descends graph.base hash → ∃ graph',
      graph.insert VoteWeight.ops hash (T.number hash) weight chain = .ok (.ok graph') ∧
        graph'.base = graph.base ∧ ∃ votes', Inv T VoteWeight.bits (VoteWeight.Good nVoters) graph'
          votes' ∧ graph'.CastsAs T votes' Cast') ∧
    (¬ T.Descends graph.base hash →
      graph.insert VoteWeight.ops hash (T.number hash) weight chain = .ok (.error .notDescendent) ∧
        graph.CastsAs T votes Cast') := by
  obtain ⟨hok, herr⟩ := insert_inv hinv hchain (VoteWeight.ops_lawful nVoters) hash hgood
  constructor
  · intro hd
    obtain ⟨graph', hins, hinv', hbase⟩ := hok hd
    refine ⟨graph', hins, hbase, _, hinv', fun t k => ?_⟩
    rw [hbase]
    simp only [List.mem_append, List.mem_singleton, Prod.mk.injEq]
    constructor
    · rintro ⟨w, hw | ⟨rfl, rfl⟩, hk⟩
      · obtain ⟨hdt, hc⟩ := (hcasts t k).mp ⟨w, hw, hk⟩
        exact ⟨hdt, (hcast' t k).mpr (.inl hc)⟩
      · exact ⟨hd, (hcast' t k).mpr (.inr ⟨(hbits k).mp hk, rfl⟩)⟩
    · rintro ⟨hdt, hc⟩
      rcases (hcast' t k).mp hc with hc | ⟨rfl, rfl⟩
      · obtain ⟨w, hw, hk⟩ := (hcasts t k).mpr ⟨hdt, hc⟩
        exact ⟨w, .inl hw, hk⟩
      · exact ⟨weight, .inr ⟨rfl, rfl⟩, (hbits _).mpr rfl⟩
  · intro hnd
    refine ⟨herr hnd, fun t k => ?_⟩
    rw [hcasts t k]
    constructor
    · rintro ⟨hdt, hc⟩
      exact ⟨hdt, (hcast' t k).mpr (.inl hc)⟩
    · rintro ⟨hdt, hc⟩
      rcases (hcast' t k).mp hc with hc | ⟨-, rfl⟩
      · exact ⟨hdt, hc⟩
      · exact absurd hdt hnd

end VoteGraph

/-! ## The round's invariant -/

namespace Round

variable {Id H S : Type} [DecidableEq Id] [DecidableEq H] [DecidableEq S]

/-- Bit `k` is that of a voter whose first vote of its kind targets `t`: bit `2 i` of a
prevote, `2 i + 1` of a precommit. -/
def CastOn (round : Round Id H S) (t : H) (k : ℕ) : Prop :=
  round.prevote.FirstOn round.voters Prevote.targetHash 0 t k ∨
    round.precommit.FirstOn round.voters Precommit.targetHash 1 t k

/-- Bit `k` is that of a voter seen equivocating in votes of its kind. -/
def Equivocator (round : Round Id H S) (k : ℕ) : Prop :=
  round.prevote.EquivocatorAt round.voters 0 k ∨ round.precommit.EquivocatorAt round.voters 1 k

/-- What the round's trackers and equivocators keep, whatever its graph. -/
structure Tracked (round : Round Id H S) : Prop where
  voters : round.voters.WellFormed
  nVoters : round.bitfieldContext.nVoters = round.voters.len
  trackers : round.prevote.Inv round.voters ∧ round.precommit.Inv round.voters
  equivocators_fit : round.bitfieldContext.equivocators.Fits round.voters.len
  equivocators : ∀ k, round.bitfieldContext.equivocators.bit k = true ↔ round.Equivocator k

/-- **The round's invariant** on the block tree `T`: the trackers', and the graph's with the
first votes cast. -/
structure Inv (T : BlockTree H) (round : Round Id H S) : Prop extends round.Tracked where
  graph : ∃ votes, VoteGraph.Inv T VoteWeight.bits (VoteWeight.Good round.voters.len) round.graph
    votes ∧ round.graph.CastsAs T votes round.CastOn

omit [DecidableEq S] in
/-- What the trackers keep does not read the graph. -/
theorem Tracked.withGraph {round : Round Id H S} (htracked : round.Tracked)
    (graph : VoteGraph H VoteWeight) : { round with graph }.Tracked :=
  ⟨htracked.voters, htracked.nVoters, htracked.trackers, htracked.equivocators_fit,
    htracked.equivocators⟩

omit [DecidableEq S] in
/-- **`Round::new`** on a base at its number, with a well-formed voter set, has the
invariant. -/
theorem inv_new [Inhabited H] (T : BlockTree H) (roundParams : RoundParams Id H)
    (hwf : roundParams.voters.WellFormed) (hbase : roundParams.base.2 = T.number roundParams.base.1) :
    (Round.new roundParams : Round Id H S).Inv T := by
  obtain ⟨roundNumber, voters, baseHash, baseNumber⟩ := roundParams
  simp only at hbase hwf
  subst hbase
  -- no vote is tracked, so no bit is cast and no voter equivocated
  have hcast : ∀ t k, ¬ (Round.new ⟨roundNumber, voters, (baseHash, T.number baseHash)⟩ :
      Round Id H S).CastOn t k := by
    rintro t k (⟨_, _, _, -, -, hm, -⟩ | ⟨_, _, _, -, -, hm, -⟩) <;> cases hm
  have hequiv : ∀ k, ¬ (Round.new ⟨roundNumber, voters, (baseHash, T.number baseHash)⟩ :
      Round Id H S).Equivocator k := by
    rintro k (⟨_, _, _, -, -, hm, -⟩ | ⟨_, _, _, -, -, hm, -⟩) <;> cases hm
  refine ⟨⟨hwf, rfl, ⟨VoteTracker.inv_new _, VoteTracker.inv_new _⟩, Bitfield.fits_blank _,
    fun k => ?_⟩, [], VoteGraph.new_inv (VoteWeight.ops_lawful _) baseHash, fun t k => ?_⟩
  · have hblank : (Round.new ⟨roundNumber, voters, (baseHash, T.number baseHash)⟩ :
        Round Id H S).bitfieldContext.equivocators = .blank := rfl
    rw [hblank]
    simpa [Bitfield.bit] using hequiv k
  · constructor
    · rintro ⟨_, hw, -⟩
      exact absurd hw List.not_mem_nil
    · rintro ⟨-, hc⟩
      exact absurd hc (hcast t k)

/-- What a round keeps from one call to the next: its base and its voters, and every
equivocator it has marked. -/
structure Follows (round round' : Round Id H S) : Prop where
  base : round'.graph.base = round.graph.base
  voters : round'.voters = round.voters
  equivocators : ∀ k, round.bitfieldContext.equivocators.bit k = true →
    round'.bitfieldContext.equivocators.bit k = true

omit [DecidableEq S] in
theorem Follows.refl (round : Round Id H S) : round.Follows round :=
  ⟨rfl, rfl, fun _ hk => hk⟩

omit [DecidableEq S] in
theorem Follows.trans {round round' round'' : Round Id H S} (h : round.Follows round')
    (h' : round'.Follows round'') : round.Follows round'' :=
  ⟨h'.base.trans h.base, h'.voters.trans h.voters,
    fun k hk => h'.equivocators k (h.equivocators k hk)⟩

omit [DecidableEq S] in
/-- A new graph on the same base keeps a round following. -/
theorem Follows.withGraph {round round' : Round Id H S} (h : round.Follows round')
    {graph : VoteGraph H VoteWeight} (hbase : graph.base = round.graph.base) :
    round.Follows { round' with graph } :=
  ⟨hbase, h.voters, h.equivocators⟩

end Round

/-! ## Tracking a vote -/

variable {Id H S Vote : Type} [DecidableEq Id] [DecidableEq H]

/-- A kind of vote as the round's invariant sees it: its tracker gives the bits at `offset` of
the voters' pairs, setting the tracker changes nothing else of the round, and the other kind's
share of the cast votes, of the equivocators and of the trackers' invariant (`other…`) stays as
it is.  Its bitfields are those of `Shared` at its bit. -/
structure VoteKind.Lawful (kind : VoteKind Id H S Vote) (offset : ℕ) (targetHash : Vote → H)
    (otherCast : Round Id H S → H → ℕ → Prop) (otherEquivocator : Round Id H S → ℕ → Prop)
    (otherInv : Round Id H S → Prop) : Prop where
  offset_lt : offset < 2
  target_fst : ∀ v, (kind.target v).1 = targetHash v
  tracker_set : ∀ r t, kind.tracker (kind.setTracker r t) = t
  graph_set : ∀ r t, (kind.setTracker r t).graph = r.graph
  voters_set : ∀ r t, (kind.setTracker r t).voters = r.voters
  context_set : ∀ r t, (kind.setTracker r t).bitfieldContext = r.bitfieldContext
  roundNumber_set : ∀ r t, (kind.setTracker r t).roundNumber = r.roundNumber
  castOn : ∀ r t k, r.CastOn t k ↔
    (kind.tracker r).FirstOn r.voters targetHash offset t k ∨ otherCast r t k
  equivocator : ∀ r k, r.Equivocator k ↔
    (kind.tracker r).EquivocatorAt r.voters offset k ∨ otherEquivocator r k
  trackers : ∀ r, (r.prevote.Inv r.voters ∧ r.precommit.Inv r.voters) ↔
    ((kind.tracker r).Inv r.voters ∧ otherInv r)
  otherCast_set : ∀ r t, otherCast (kind.setTracker r t) = otherCast r
  otherEquivocator_set : ∀ r t, otherEquivocator (kind.setTracker r t) = otherEquivocator r
  otherInv_set : ∀ r t, otherInv (kind.setTracker r t) = otherInv r
  bitfield : ∀ ctx info, kind.bitfield ctx info =
    ((LiveBitfield.withVoters ctx.nVoters).setBit (2 * info.canonIdx + offset) ctx.nVoters).map
      .live
  equivocated : ∀ ctx info, kind.equivocated ctx info =
    (⟨ctx.nVoters, (ctx.equivocators.setBit (2 * info.canonIdx + offset) ctx.nVoters).1⟩,
      (ctx.equivocators.setBit (2 * info.canonIdx + offset) ctx.nVoters).2)

namespace Round

/-- The prevote kind is lawful at bit `2 i`, the precommits being the other kind. -/
theorem prevoteKind_lawful :
    (prevoteKind : VoteKind Id H S (Prevote H)).Lawful 0 Prevote.targetHash
      (fun r => r.precommit.FirstOn r.voters Precommit.targetHash 1)
      (fun r => r.precommit.EquivocatorAt r.voters 1) (fun r => r.precommit.Inv r.voters) where
  offset_lt := by norm_num
  target_fst _ := rfl
  tracker_set _ _ := rfl
  graph_set _ _ := rfl
  voters_set _ _ := rfl
  context_set _ _ := rfl
  roundNumber_set _ _ := rfl
  castOn _ _ _ := Iff.rfl
  equivocator _ _ := Iff.rfl
  trackers _ := Iff.rfl
  otherCast_set _ _ := rfl
  otherEquivocator_set _ _ := rfl
  otherInv_set _ _ := rfl
  bitfield ctx info := by simp [prevoteKind, Shared.prevoteBitfield, mul_comm]
  equivocated ctx info := by simp [prevoteKind, Shared.equivocatedPrevote, mul_comm]

/-- The precommit kind is lawful at bit `2 i + 1`, the prevotes being the other kind. -/
theorem precommitKind_lawful :
    (precommitKind : VoteKind Id H S (Precommit H)).Lawful 1 Precommit.targetHash
      (fun r => r.prevote.FirstOn r.voters Prevote.targetHash 0)
      (fun r => r.prevote.EquivocatorAt r.voters 0) (fun r => r.prevote.Inv r.voters) where
  offset_lt := by norm_num
  target_fst _ := rfl
  tracker_set _ _ := rfl
  graph_set _ _ := rfl
  voters_set _ _ := rfl
  context_set _ _ := rfl
  roundNumber_set _ _ := rfl
  castOn _ _ _ := or_comm
  equivocator _ _ := or_comm
  trackers _ := and_comm
  otherCast_set _ _ := rfl
  otherEquivocator_set _ _ := rfl
  otherInv_set _ _ := rfl
  bitfield ctx info := by simp [precommitKind, Shared.precommitBitfield, mul_comm]
  equivocated ctx info := by simp [precommitKind, Shared.equivocatedPrecommit, mul_comm]

section Track

variable {kind : VoteKind Id H S Vote} {offset : ℕ} {targetHash : Vote → H}
  {otherCast : Round Id H S → H → ℕ → Prop} {otherEquivocator : Round Id H S → ℕ → Prop}
  {otherInv : Round Id H S → Prop}
  (hk : kind.Lawful offset targetHash otherCast otherEquivocator otherInv)
  {T : BlockTree H} {round : Round Id H S}
include hk

/-- The equivocators a round whose tracker of the kind is replaced records: the new tracker's
and the other kind's. -/
theorem equivocator_setTracker (tracker : VoteTracker Id Vote S) (k : ℕ) :
    (kind.setTracker round tracker).Equivocator k ↔
      tracker.EquivocatorAt round.voters offset k ∨ otherEquivocator round k := by
  rw [hk.equivocator, hk.tracker_set, hk.voters_set, hk.otherEquivocator_set]

/-- What a round whose tracker of the kind is replaced casts: the new tracker's first votes
and the other kind's. -/
theorem castOn_setTracker (tracker : VoteTracker Id Vote S) (t : H) (k : ℕ) :
    (kind.setTracker round tracker).CastOn t k ↔
      tracker.FirstOn round.voters targetHash offset t k ∨ otherCast round t k := by
  rw [hk.castOn, hk.tracker_set, hk.voters_set, hk.otherCast_set]

/-- A round whose tracker of the kind is replaced by one keeping the tracker's invariant keeps
both trackers' invariants. -/
theorem trackers_setTracker (htracked : round.Tracked) {tracker : VoteTracker Id Vote S}
    (htracker : tracker.Inv round.voters) :
    (kind.setTracker round tracker).prevote.Inv (kind.setTracker round tracker).voters ∧
      (kind.setTracker round tracker).precommit.Inv (kind.setTracker round tracker).voters := by
  rw [hk.trackers, hk.tracker_set, hk.voters_set, hk.otherInv_set]
  exact ⟨htracker, ((hk.trackers round).mp htracked.trackers).2⟩

/-- A round whose tracker of the kind is replaced keeps what its trackers keep when the new
tracker keeps the tracker's invariant and its equivocators. -/
theorem Tracked.setTracker (htracked : round.Tracked) {tracker : VoteTracker Id Vote S}
    (htracker : tracker.Inv round.voters)
    (hequiv : ∀ k, tracker.EquivocatorAt round.voters offset k ↔
      (kind.tracker round).EquivocatorAt round.voters offset k) :
    (kind.setTracker round tracker).Tracked := by
  have htr := trackers_setTracker hk htracked htracker
  obtain ⟨hwf, hn, -, hfit, heqv⟩ := htracked
  have hv := hk.voters_set round tracker
  have hctx := hk.context_set round tracker
  refine ⟨hv ▸ hwf, by rw [hv, hctx, hn], htr, by rw [hv, hctx]; exact hfit, fun k => ?_⟩
  rw [hctx, heqv, equivocator_setTracker hk, hk.equivocator, hequiv]

/-- A round whose tracker of the kind is replaced follows it. -/
theorem follows_setTracker (tracker : VoteTracker Id Vote S) :
    round.Follows (kind.setTracker round tracker) :=
  ⟨by rw [hk.graph_set], hk.voters_set _ _, fun k hbit => by rwa [hk.context_set]⟩

/-- A round whose tracker of the kind is replaced, its graph kept, keeps the invariant when the
new tracker casts what the old one did on every block above the base. -/
theorem Inv.setTracker (hinv : round.Inv T) {tracker : VoteTracker Id Vote S}
    (htracker : tracker.Inv round.voters)
    (hequiv : ∀ k, tracker.EquivocatorAt round.voters offset k ↔
      (kind.tracker round).EquivocatorAt round.voters offset k)
    (hcast : ∀ t k, T.Descends round.graph.base t →
      (tracker.FirstOn round.voters targetHash offset t k ↔
        (kind.tracker round).FirstOn round.voters targetHash offset t k)) :
    (kind.setTracker round tracker).Inv T := by
  obtain ⟨votes, hg, hcasts⟩ := hinv.graph
  refine ⟨hinv.toTracked.setTracker hk htracker hequiv, votes,
    by rw [hk.voters_set, hk.graph_set]; exact hg, fun t k => ?_⟩
  rw [hk.graph_set, hcasts t k, castOn_setTracker hk, hk.castOn]
  constructor
  · rintro ⟨hd, hc⟩
    exact ⟨hd, (or_congr_left (hcast t k hd)).mpr hc⟩
  · rintro ⟨hd, hc⟩
    exact ⟨hd, (or_congr_left (hcast t k hd)).mp hc⟩

variable [DecidableEq S] [DecidableEq Vote]

/-- **Tracking a vote keeps the invariant and never panics**, for a vote whose number is its
block's, on a lawful chain.  The chain's error comes only for a block not above the base. -/
theorem trackVote_inv (hinv : round.Inv T) {chain : Chain H} (hchain : chain.Lawful T)
    (vote : Vote) (hnum : (kind.target vote).2 = T.number (targetHash vote)) (signer : Id)
    (signature : S) :
    ∃ round' result, round.trackVote kind chain vote signer signature = .ok (round', result) ∧
      round'.Inv T ∧ round.Follows round' ∧
        (∀ e, result = .error e → ¬ T.Descends round.graph.base (targetHash vote)) ∧
        ∀ e, result = .ok (some (some e)) → ∃ info v s, round.voters.info signer = some info ∧
          (kind.tracker round).votes.lookup signer = some (.single v s) ∧
          round'.bitfieldContext.equivocators.bit (2 * info.canonIdx + offset) = true := by
  cases hinfo : round.voters.info signer with
  | none => exact ⟨round, .ok none, by simp [trackVote, hinfo], hinv, .refl round, by simp, by simp⟩
  | some info =>
    obtain ⟨hwf, hn, htr, hfit, heqv⟩ := hinv.toTracked
    have htk := ((hk.trackers round).mp htr).1
    have htarget : kind.target vote = (targetHash vote, T.number (targetHash vote)) :=
      Prod.ext (hk.target_fst vote) hnum
    -- the voter's bit of the kind is inside the words
    have hbit : 2 * info.canonIdx + offset < round.bitfieldContext.nVoters * 2 := by
      have := hwf.canonIdx_lt hinfo
      have := hk.offset_lt
      rw [hn]
      omega
    have htinv := htk.addVote hinfo vote signature
    rcases VoteTracker.addVote_cases (kind.tracker round) signer vote signature info.weight with
      ⟨hnone, hrun⟩ | ⟨v, s, hsingle, hrun⟩ | hrun <;> rw [hrun] at htinv <;> dsimp only at htinv
    · -- a first vote: weighed with the voter's bit and inserted into the graph
      have hequiv : ∀ k, VoteTracker.EquivocatorAt round.voters offset
          ⟨(kind.tracker round).votes.insert signer (.single vote signature),
            (kind.tracker round).currentWeight + info.weight⟩ k ↔
          (kind.tracker round).EquivocatorAt round.voters offset k :=
        VoteTracker.equivocatorAt_insert_single vote signature hnone _
      obtain ⟨live, hset, hlfit, hlbits⟩ := LiveBitfield.withVoters_setBit hbit
      have hbits : ∀ k, k ∈ (⟨.live live⟩ : VoteWeight).bits ↔ k = 2 * info.canonIdx + offset := by
        intro k
        simp [VoteWeight.bits, Bitfield.bit, hlbits]
      have hgood : (⟨.live live⟩ : VoteWeight).Good round.voters.len := hn ▸ hlfit
      obtain ⟨votes, hg, hcasts⟩ := hinv.graph
      have hcast' : ∀ t k, (kind.setTracker round
          ⟨(kind.tracker round).votes.insert signer (.single vote signature),
            (kind.tracker round).currentWeight + info.weight⟩).CastOn t k ↔
          round.CastOn t k ∨ (k = 2 * info.canonIdx + offset ∧ targetHash vote = t) := by
        intro t k
        rw [castOn_setTracker hk, VoteTracker.firstOn_insert_single vote signature hinfo hnone,
          hk.castOn round]
        tauto
      obtain ⟨hok, herr⟩ := VoteGraph.insert_one_bit hg hcasts hchain hgood hbits hcast'
      by_cases hd : T.Descends round.graph.base (targetHash vote)
      · obtain ⟨graph', hins, hbase', votes', hg', hcasts'⟩ := hok hd
        refine ⟨{ kind.setTracker round ⟨(kind.tracker round).votes.insert signer
            (.single vote signature), (kind.tracker round).currentWeight + info.weight⟩ with
              graph := graph' }, .ok (some none), ?_,
          ⟨(hinv.toTracked.setTracker hk htinv hequiv).withGraph graph', votes',
            by simpa only [hk.voters_set] using hg', hcasts'⟩,
          (follows_setTracker hk _).withGraph hbase', by simp, by simp⟩
        simp [trackVote, hinfo, hrun, hk.bitfield, hk.context_set, hset, Except.map, htarget,
          hk.graph_set, hins]
      · refine ⟨_, .error .notDescendent, ?_, hinv.setTracker hk htinv hequiv fun t k hdt => ?_,
          follows_setTracker hk _, fun _ _ => hd, by simp⟩
        · simp [trackVote, hinfo, hrun, hk.bitfield, hk.context_set, hset, Except.map, htarget,
            hk.graph_set, (herr hd).1]
        · rw [VoteTracker.firstOn_insert_single vote signature hinfo hnone]
          constructor
          · rintro (hc | ⟨-, rfl⟩)
            · exact hc
            · exact absurd hdt hd
          · exact .inl
    · -- a first equivocation: the voter's bit is set among the equivocators
      obtain ⟨equivocators', hset, hfit', hbits'⟩ := Bitfield.setBit_fits (hn ▸ hfit) hbit
      have hequiv : ∀ k, VoteTracker.EquivocatorAt round.voters offset
          ⟨(kind.tracker round).votes.insert signer (.equivocated (v, s) (vote, signature)),
            (kind.tracker round).currentWeight⟩ k ↔
          (kind.tracker round).EquivocatorAt round.voters offset k ∨
            k = 2 * info.canonIdx + offset :=
        VoteTracker.equivocatorAt_insert_equivocated vote signature hinfo hsingle
      have hfirst : ∀ t k, VoteTracker.FirstOn round.voters targetHash offset
          ⟨(kind.tracker round).votes.insert signer (.equivocated (v, s) (vote, signature)),
            (kind.tracker round).currentWeight⟩ t k ↔
          (kind.tracker round).FirstOn round.voters targetHash offset t k :=
        VoteTracker.firstOn_insert_equivocated vote signature hsingle
      generalize htracker' : (⟨(kind.tracker round).votes.insert signer
        (.equivocated (v, s) (vote, signature)), (kind.tracker round).currentWeight⟩ :
          VoteTracker Id Vote S) = tracker' at hrun htinv hequiv hfirst
      -- the round with the tracker replaced, before its equivocators are
      have hv1 := hk.voters_set round tracker'
      have hequiv1 : ∀ k, equivocators'.bit k = true ↔
          (kind.setTracker round tracker').Equivocator k := by
        intro k
        rw [hbits', Bool.or_eq_true, decide_eq_true_eq, heqv, equivocator_setTracker hk, hequiv,
          hk.equivocator]
        tauto
      obtain ⟨votes, hg, hcasts⟩ := hinv.graph
      have hcasts1 : (kind.setTracker round tracker').graph.CastsAs T votes
          (kind.setTracker round tracker').CastOn := by
        intro t k
        rw [hk.graph_set, hcasts t k, castOn_setTracker hk, hfirst, hk.castOn]
      refine ⟨{ kind.setTracker round tracker' with
          bitfieldContext := ⟨round.bitfieldContext.nVoters, equivocators'⟩ },
        .ok (some (some ⟨round.roundNumber, signer, (v, s), (vote, signature)⟩)), ?_,
        ⟨⟨?_, ?_, trackers_setTracker hk hinv.toTracked htinv, ?_, hequiv1⟩, votes, ?_, hcasts1⟩,
        ⟨by rw [hk.graph_set], hv1, fun k hbit => by simp [hbits', hbit]⟩, by simp,
        fun _ _ => ⟨info, v, s, rfl, hsingle, by simp [hbits']⟩⟩
      · simp [trackVote, hinfo, hrun, hk.equivocated, hk.context_set, hset, hk.roundNumber_set]
      · simpa only [hv1] using hwf
      · simp only [hv1, hn]
      · simpa only [hv1, hn] using hfit'
      · simpa only [hv1, hk.graph_set] using hg
    · -- a repeated vote or a further equivocation: nothing changes
      exact ⟨_, .ok none, by simp [trackVote, hinfo, hrun],
        hinv.setTracker hk htinv (fun _ => Iff.rfl) fun _ _ _ => Iff.rfl, follows_setTracker hk _,
        by simp, by simp⟩

end Track

end Round

end Grandpa
end Yeeroot

import Yeeroot.Grandpa.VoteGraph
import Yeeroot.Grandpa.Bitfield

/-!
# A round of GRANDPA

`round.rs` of `core/finality-grandpa` accumulates the votes of one round.  Prevotes and
precommits go into one vote-graph, each weighed by a bitfield that holds the voter's bit of its
kind; a vote-node's cumulative weight is the merge of the bitfields above it.  Two vote trackers
keep, per voter and kind, the first vote, and the second one if the voter equivocates; further
votes are dropped.  An equivocator's bit is set in the equivocators' bitfield, and from then on
it counts as voting for every block.

After each import the round recomputes what its voter acts on: the prevote-GHOST (the highest
block with a supermajority of prevotes), the finalized block (the highest block below it with a
supermajority of precommits), the round-estimate (the highest block below it that could still
get one) and whether the round is completable.

Modelling choices:

* `&mut self` methods return the new round; the early `return Ok(None)`s return it as it stands,
  and the `?` on the graph's insertion returns it with the vote already tracked;
* an `expect` on a `Result` panics with the message, `": "` and the error's `Debug` text;
* the closures the GHOST searches run call `total_weight`, which may panic, so they are
  `VoteWeight → Except Panic Bool`;
* `import_prevote` and `import_precommit` share their tracking block, `trackVote`, over a
  `VoteKind` that says which tracker, bits and equivocators' bit a kind of vote uses; the
  prevote import alone updates the prevote-GHOST;
* `+` and `-` on `u64` wrap, as the release build does.
-/

namespace Yeeroot
namespace Grandpa

open Rust

/-- The `Debug` text of a bitfield error, as `#[derive(Debug)]` prints it. -/
def BitfieldError.debug : BitfieldError → String
  | .indexOutOfBounds idx n => "IndexOutOfBounds(" ++ toString idx ++ ", " ++ toString n ++ ")"
  | .lengthMismatch a b => "LengthMismatch(" ++ toString a ++ ", " ++ toString b ++ ")"

/-- The panic of `Result::expect(msg)` on a bitfield error. -/
def bitfieldExpect (msg : String) (e : BitfieldError) : Panic := ⟨msg ++ ": " ++ e.debug⟩

/-! ## Vote weights -/

/-- `TotalWeight`. -/
structure TotalWeight where
  prevote : UInt64
  precommit : UInt64
deriving DecidableEq, Repr

/-- `VoteWeight`: the voters a vote-node's weight is from. -/
structure VoteWeight where
  bitfield : Bitfield
deriving DecidableEq, Repr

namespace VoteWeight

variable {Id : Type}

/-- `VoteWeight::total_weight`: the weights of the node's voters and of the equivocators, each
voter counted once. -/
def totalWeight (weight : VoteWeight) (equivocators : Bitfield) (voterSet : VoterSet Id) :
    Except Panic TotalWeight :=
  match weight.bitfield.merge equivocators with
  | .error e => .error (bitfieldExpect
      "this function is never invoked with equivocators of different canonicality; qed" e)
  | .ok withEquivocators =>
    let (prevote, precommit) :=
      withEquivocators.totalWeight fun idx => (voterSet.weightByIndex idx).getD 0
    .ok ⟨prevote, precommit⟩

/-- `AddAssign for VoteWeight`: the bitfields merged. -/
def addAssign (weight rhs : VoteWeight) : Except Panic VoteWeight :=
  match weight.bitfield.merge rhs.bitfield with
  | .error e => .error (bitfieldExpect "both bitfields set to same length; qed" e)
  | .ok bitfield => .ok ⟨bitfield⟩

/-- The bounds the round's vote-graph uses: `Default` (a blank bitfield) and `AddAssign`. -/
def ops : VoteOps VoteWeight := ⟨⟨.blank⟩, addAssign⟩

end VoteWeight

/-! ## Vote trackers -/

/-- `VoteMultiplicity`: the votes of one voter, with their signatures. -/
inductive VoteMultiplicity (Vote Signature : Type)
  | single (vote : Vote) (signature : Signature)
  | equivocated (first second : Vote × Signature)
deriving DecidableEq, Repr

namespace VoteMultiplicity

variable {Vote Signature : Type} [DecidableEq Vote] [DecidableEq Signature]

/-- `VoteMultiplicity::contains`. -/
def contains : VoteMultiplicity Vote Signature → Vote → Signature → Bool
  | single v s, vote, signature => decide (v = vote) && decide (s = signature)
  | equivocated (v1, s1) (v2, s2), vote, signature =>
    decide (v1 = vote) && decide (s1 = signature) || decide (v2 = vote) && decide (s2 = signature)

end VoteMultiplicity

/-- `VoteTracker`: the votes of each voter, and the weight of the voters seen. -/
structure VoteTracker (Id Vote Signature : Type) [DecidableEq Id] where
  votes : AList fun _ : Id => VoteMultiplicity Vote Signature
  currentWeight : UInt64

namespace VoteTracker

variable {Id Vote Signature : Type} [DecidableEq Id] [DecidableEq Vote] [DecidableEq Signature]

/-- `VoteTracker::new`. -/
def new : VoteTracker Id Vote Signature := ⟨∅, 0⟩

/-- `VoteTracker::add_vote`: the first vote of a voter is tracked and its weight counted; a
second, different one makes the voter an equivocator; a repeated or a third vote is dropped
(`none`).  Returns the voter's votes after a change. -/
def addVote (tracker : VoteTracker Id Vote Signature) (id : Id) (vote : Vote)
    (signature : Signature) (weight : UInt64) :
    VoteTracker Id Vote Signature × Option (VoteMultiplicity Vote Signature) :=
  match tracker.votes.lookup id with
  | none =>
    let multiplicity := VoteMultiplicity.single vote signature
    (⟨tracker.votes.insert id multiplicity, tracker.currentWeight + weight⟩, some multiplicity)
  | some multiplicity =>
    if multiplicity.contains vote signature then (tracker, none)
    else
      match multiplicity with
      | .single v s =>
        let multiplicity := VoteMultiplicity.equivocated (v, s) (vote, signature)
        ({ tracker with votes := tracker.votes.insert id multiplicity }, some multiplicity)
      | .equivocated _ _ => (tracker, none)

/-- `VoteTracker::votes`: every vote tracked, with its voter, in the map's order. -/
def votes' (tracker : VoteTracker Id Vote Signature) : List (Id × Vote × Signature) :=
  tracker.votes.entries.flatMap fun entry =>
    match entry.2 with
    | .single v s => [(entry.1, v, s)]
    | .equivocated (v1, s1) (v2, s2) => [(entry.1, v1, s1), (entry.1, v2, s2)]

end VoteTracker

/-! ## The round -/

/-- `State`: what the round shows its voter. -/
structure State (H : Type) where
  prevoteGhost : Option (H × ℕ)
  finalized : Option (H × ℕ)
  estimate : Option (H × ℕ)
  completable : Bool
deriving DecidableEq, Repr

/-- `State::genesis`. -/
def State.genesis {H : Type} (genesis : H × ℕ) : State H :=
  ⟨some genesis, some genesis, some genesis, true⟩

/-- `RoundParams`. -/
structure RoundParams (Id H : Type) where
  roundNumber : UInt64
  voters : VoterSet Id
  base : H × ℕ

/-- `Round`. -/
structure Round (Id H S : Type) [DecidableEq Id] [DecidableEq H] where
  graph : VoteGraph H VoteWeight
  prevote : VoteTracker Id (Prevote H) S
  precommit : VoteTracker Id (Precommit H) S
  roundNumber : UInt64
  voters : VoterSet Id
  totalWeight : UInt64
  bitfieldContext : Shared
  prevoteGhost : Option (H × ℕ)
  precommitGhost : Option (H × ℕ)
  finalized : Option (H × ℕ)
  estimate : Option (H × ℕ)
  completable : Bool

/-- What tells a kind of vote from the other in an import: the vote's target, the tracker of
the kind, the fresh bitfield a single vote weighs, and the marking of an equivocator. -/
structure VoteKind (Id H S Vote : Type) [DecidableEq Id] [DecidableEq H] where
  target : Vote → H × ℕ
  tracker : Round Id H S → VoteTracker Id Vote S
  setTracker : Round Id H S → VoteTracker Id Vote S → Round Id H S
  bitfield : Shared → VoterInfo → Except BitfieldError Bitfield
  equivocated : Shared → VoterInfo → Shared × Except BitfieldError Unit

namespace Round

variable {Id H S : Type} [DecidableEq Id] [DecidableEq H] [DecidableEq S] [Inhabited H]

/-- `Round::new`: an empty graph on the base, no votes, a fresh bitfield context. -/
def new (roundParams : RoundParams Id H) : Round Id H S :=
  let (baseHash, baseNumber) := roundParams.base
  { roundNumber := roundParams.roundNumber
    totalWeight := roundParams.voters.totalWeight
    voters := roundParams.voters
    graph := VoteGraph.new VoteWeight.ops baseHash baseNumber
    prevote := VoteTracker.new
    precommit := VoteTracker.new
    bitfieldContext := Shared.new roundParams.voters.len
    prevoteGhost := none
    precommitGhost := none
    finalized := none
    estimate := none
    completable := false }

/-- `Round::threshold`. -/
def threshold (round : Round Id H S) : UInt64 := round.voters.threshold

/-- `Round::state`. -/
def state (round : Round Id H S) : State H :=
  ⟨round.prevoteGhost, round.finalized, round.estimate, round.completable⟩

/-- The closure of the GHOST and finality searches: the node's weight of one kind
(`TotalWeight.prevote` or `TotalWeight.precommit`), with the equivocators, reaches the
threshold. -/
def weightAtLeast (equivocators : Bitfield) (voters : VoterSet Id) (kind : TotalWeight → UInt64)
    (threshold : UInt64) (weight : VoteWeight) : Except Panic Bool := do
  let total ← weight.totalWeight equivocators voters
  pure (kind total ≥ threshold)

/-- The closure `possible_to_precommit` of `update`: the node could still reach the threshold
of precommits if every voter not yet seen precommits on it and the voters seen elsewhere
equivocate, as far as the tolerated equivocations allow. -/
def possibleToPrecommit (equivocators : Bitfield) (voters : VoterSet Id)
    (currentPrecommits remainingCommitVotes additionalEquiv threshold : UInt64)
    (weight : VoteWeight) : Except Panic Bool := do
  let precommittedFor := (← weight.totalWeight equivocators voters).precommit
  let possibleEquivocations :=
    min (U64.saturatingSub currentPrecommits precommittedFor) additionalEquiv
  let fullPossibleWeight :=
    U64.saturatingAdd (U64.saturatingAdd precommittedFor remainingCommitVotes)
      possibleEquivocations
  pure (fullPossibleWeight ≥ threshold)

/-- The prevote kind. -/
def prevoteKind : VoteKind Id H S (Prevote H) where
  target vote := (vote.targetHash, vote.targetNumber)
  tracker round := round.prevote
  setTracker round prevote := { round with prevote }
  bitfield := Shared.prevoteBitfield
  equivocated := Shared.equivocatedPrevote

/-- The precommit kind. -/
def precommitKind : VoteKind Id H S (Precommit H) where
  target vote := (vote.targetHash, vote.targetNumber)
  tracker round := round.precommit
  setTracker round precommit := { round with precommit }
  bitfield := Shared.precommitBitfield
  equivocated := Shared.equivocatedPrecommit

variable {Vote : Type} [DecidableEq Vote]

/-- The block of `import_prevote` and `import_precommit` that tracks the vote.  The inner
result is `none` when the import returns `Ok(None)` at once (an unknown signer, a repeated
vote, a further equivocation), and otherwise the equivocation found, if any, with which
the import goes on.  A single vote is inserted into the graph weighing the voter's bit; the
chain's error ends the import with the vote tracked.  A first equivocation sets the voter's
bit among the equivocators. -/
def trackVote (kind : VoteKind Id H S Vote) (round : Round Id H S) (chain : Chain H)
    (vote : Vote) (signer : Id) (signature : S) :
    Except Panic (Round Id H S × Except Error (Option (Option (Equivocation Id Vote S)))) :=
  match round.voters.info signer with
  | none => pure (round, .ok none)
  | some info =>
    let (tracker, multiplicity) := (kind.tracker round).addVote signer vote signature info.weight
    let round := kind.setTracker round tracker
    match multiplicity with
    | none => pure (round, .ok none)
    | some (.single vote _) =>
      match kind.bitfield round.bitfieldContext info with
      | .error e => throw (bitfieldExpect "info is instantiated from same voter set as context; qed" e)
      | .ok bitfield => do
        let (hash, number) := kind.target vote
        match ← round.graph.insert VoteWeight.ops hash number ⟨bitfield⟩ chain with
        | .error e => pure (round, .error e)
        | .ok graph => pure ({ round with graph }, .ok (some none))
    | some (.equivocated first second) =>
      -- mark the equivocator as such; its first vote stays in the graph
      let (bitfieldContext, result) := kind.equivocated round.bitfieldContext info
      match result with
      | .error e => throw (bitfieldExpect "info is instantiated from same voter set as bitfield; qed" e)
      | .ok () =>
        pure ({ round with bitfieldContext },
          .ok (some (some ⟨round.roundNumber, signer, first, second⟩)))

/-- `Round::update`: with a supermajority of prevotes and a prevote-GHOST, the finalized block
(with a supermajority of precommits), the round-estimate and whether the round is
completable. -/
def update (round : Round Id H S) : Except Panic (Round Id H S) := do
  let threshold := round.threshold
  if round.prevote.currentWeight < threshold then return round
  let remainingCommitVotes := round.totalWeight - round.precommit.currentWeight
  let equivocators := round.bitfieldContext.equivocators
  let voters := round.voters
  let some (gHash, gNum) := round.prevoteGhost | return round
  let currentPrecommits := round.precommit.currentWeight
  let round ← if currentPrecommits ≥ threshold then do
      let finalized ← round.graph.findAncestor VoteWeight.ops gHash gNum
        (weightAtLeast equivocators voters TotalWeight.precommit threshold)
      pure { round with finalized }
    else pure round
  let toleratedEquivocations := round.totalWeight - threshold
  let currentEquivocations :=
    (equivocators.totalWeight fun idx => (round.voters.weightByIndex idx).getD 0).2
  let additionalEquiv := U64.saturatingSub toleratedEquivocations currentEquivocations
  let possible := possibleToPrecommit equivocators voters currentPrecommits remainingCommitVotes
    additionalEquiv threshold
  if round.precommit.currentWeight ≥ threshold then
    let estimate ← round.graph.findAncestor VoteWeight.ops gHash gNum possible
    -- the estimate is completable when it is below the prevote-GHOST, or is it and no block
    -- above could still be committed
    let completable ← match estimate with
      | none => pure false
      | some (bHash, bNum) =>
        if bHash ≠ gHash then pure true
        else do
          let ghost ← round.graph.findGhost VoteWeight.ops (some (bHash, bNum)) possible
          pure (match ghost with
            | none => true
            | some x => decide (x = (gHash, gNum)))
    pure { round with estimate, completable }
  else
    pure { round with estimate := some (gHash, gNum) }

/-- `Round::import_prevote`: track the prevote, then update the prevote-GHOST once the
prevotes reach the threshold, then `update`. -/
def importPrevote (round : Round Id H S) (chain : Chain H) (vote : Prevote H) (signer : Id)
    (signature : S) :
    Except Panic (Round Id H S × Except Error (Option (Equivocation Id (Prevote H) S))) := do
  let (round, result) ← round.trackVote prevoteKind chain vote signer signature
  match result with
  | .error e => pure (round, .error e)
  | .ok none => pure (round, .ok none)
  | .ok (some equivocation) =>
    let threshold := round.threshold
    let round ← if round.prevote.currentWeight ≥ threshold then do
        let prevoteGhost ← round.graph.findGhost VoteWeight.ops round.prevoteGhost
          (weightAtLeast round.bitfieldContext.equivocators round.voters TotalWeight.prevote
            threshold)
        pure { round with prevoteGhost }
      else pure round
    let round ← round.update
    pure (round, .ok equivocation)

/-- `Round::import_precommit`: track the precommit, then `update`. -/
def importPrecommit (round : Round Id H S) (chain : Chain H) (vote : Precommit H) (signer : Id)
    (signature : S) :
    Except Panic (Round Id H S × Except Error (Option (Equivocation Id (Precommit H) S))) := do
  let (round, result) ← round.trackVote precommitKind chain vote signer signature
  match result with
  | .error e => pure (round, .error e)
  | .ok none => pure (round, .ok none)
  | .ok (some equivocation) =>
    let round ← round.update
    pure (round, .ok equivocation)

/-- `Round::precommit_ghost`: update the precommit-GHOST once the precommits reach the
threshold, and return it. -/
def precommitGhost' (round : Round Id H S) : Except Panic (Round Id H S × Option (H × ℕ)) := do
  let threshold := round.threshold
  let round ← if round.precommit.currentWeight ≥ threshold then do
      let precommitGhost ← round.graph.findGhost VoteWeight.ops round.precommitGhost
        (weightAtLeast round.bitfieldContext.equivocators round.voters TotalWeight.precommit
          threshold)
      pure { round with precommitGhost }
    else pure round
  pure (round, round.precommitGhost)

/-- The `YieldVotes` iterator of `finalizing_precommits`: the voter's vote, or both of an
equivocator's. -/
def yieldVotes {V : Type} : VoteMultiplicity V S → List (V × S)
  | .single v s => [(v, s)]
  | .equivocated a b => [a, b]

/-- `Round::finalizing_precommits`: once a block is finalized, the precommits of the voters
that voted once on it or above, and both precommits of every equivocator. -/
def finalizingPrecommits (round : Round Id H S) (chain : Chain H) :
    Option (List (SignedPrecommit H S Id)) := do
  let (fHash, _) ← round.finalized
  let valid := round.precommit.votes.entries.filter fun entry =>
    match entry.2 with
    | .single v _ => chain.isEqualOrDescendentOf fHash v.targetHash
    | .equivocated _ _ => true
  pure (valid.flatMap fun entry => (yieldVotes entry.2).map fun (v, s) => ⟨v, s, entry.1⟩)

end Round

/-! ## Validating a commit -/

variable {Id H S : Type} [DecidableEq Id] [DecidableEq H] [DecidableEq S] [Inhabited H]

/-- The loop of `validate_commit` over the commit's precommits: each is imported into the
round, and a second equivocation proof from one voter rejects the commit (`none`). -/
def importCommitPrecommits (chain : Chain H) :
    List (SignedPrecommit H S Id) → List Id → Round Id H S →
      Except Panic (Except Error (Option (Round Id H S)))
  | [], _, round => pure (.ok (some round))
  | signed :: rest, equivocated, round => do
    match ← round.importPrecommit chain signed.precommit signed.id signed.signature with
    | (_, .error e) => pure (.error e)
    | (round, .ok none) => importCommitPrecommits chain rest equivocated round
    | (round, .ok (some _)) =>
      -- allow only one equivocation per voter, as extras are redundant
      if signed.id ∈ equivocated then pure (.ok none)
      else importCommitPrecommits chain rest (equivocated ++ [signed.id]) round

/-- `validate_commit`: every precommit must be on or above the target, at least as high;
they are then imported into a fresh round on the target, whose precommit-GHOST is the
result. -/
def validateCommit (commit : Commit H S Id) (voters : VoterSet Id) (chain : Chain H) :
    Except Panic (Except Error (Option (H × ℕ))) := do
  if !commit.precommits.all fun signed =>
      decide (signed.precommit.targetNumber ≥ commit.targetNumber) &&
        chain.isEqualOrDescendentOf commit.targetHash signed.precommit.targetHash then
    return .ok none
  let round : Round Id H S :=
    Round.new ⟨0, voters, (commit.targetHash, commit.targetNumber)⟩
  match ← importCommitPrecommits chain commit.precommits [] round with
  | .error e => pure (.error e)
  | .ok none => pure (.ok none)
  | .ok (some round) => do
    let (_, ghost) ← round.precommitGhost'
    pure (.ok ghost)

end Grandpa
end Yeeroot

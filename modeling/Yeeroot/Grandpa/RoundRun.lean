import Yeeroot.Grandpa.RoundInv

/-!
# Runs of a round

A voter drives a round through three calls: `import_prevote`, `import_precommit` and
`precommit_ghost` (round.rs).  Each of them tracks what it is given, searches the vote-graph and
writes back the round's estimates; none of them may panic, since a panic in a voter stops the
node.  This module proves that every call keeps the round's invariant (`Round.Inv`) and never
panics, on a chain that answers ancestry from a block tree and for votes that carry their
block's number, and therefore so does every run of calls from `Round::new`.  It then reads the
invariant back as what the round's state means: the weight the GHOST and finality searches
read at a node, the trackers' current weights, and the equivocators' bits.  Last,
`validate_commit` is such a run of imports on the commit's target, followed by the
precommit-GHOST (`validateCommit_eq`).

The one premise is the chain's: `Chain.Lawful T` says that the node's chain answers ancestry
as the block tree `T` does.  The numbers of the votes are taken to be their blocks' numbers.
-/

namespace Yeeroot
namespace Grandpa

open Rust

namespace Round

variable {Id H S : Type} [DecidableEq Id] [DecidableEq H] [Inhabited H] {T : BlockTree H}

omit [Inhabited H] in
/-- The invariant reads the graph, the voters, the trackers and the bitfield context only, so a
round that agrees with one that has it on those has it too. -/
theorem Inv.of_eq {round round' : Round Id H S} (hinv : round.Inv T)
    (hgraph : round'.graph = round.graph) (hvoters : round'.voters = round.voters)
    (hprevote : round'.prevote = round.prevote) (hprecommit : round'.precommit = round.precommit)
    (hctx : round'.bitfieldContext = round.bitfieldContext) : round'.Inv T := by
  cases round
  cases round'
  simp only at hgraph hvoters hprevote hprecommit hctx
  subst hgraph hvoters hprevote hprecommit hctx
  exact ⟨⟨hinv.voters, hinv.nVoters, hinv.trackers, hinv.equivocators_fit, hinv.equivocators⟩,
    hinv.graph⟩

/-! ## One call -/

section Update

variable {round : Round Id H S} (hinv : round.Inv T)
include hinv

omit [Inhabited H] in
/-- The round-estimate's condition is safe for the searches of `update`. -/
theorem update_possible_safe :
    SearchSafe VoteWeight.ops (VoteWeight.Good round.voters.len)
      (possibleToPrecommit round.bitfieldContext.equivocators round.voters
        round.precommit.currentWeight (round.totalWeight - round.precommit.currentWeight)
        (U64.saturatingSub (round.totalWeight - round.threshold)
          (round.bitfieldContext.equivocators.totalWeight
            fun idx => (round.voters.weightByIndex idx).getD 0).2)
        round.threshold) :=
  possibleToPrecommit_safe hinv.equivocators_fit _ _ _ _

/-- **What `update` does.**  On a round with the invariant it never panics, and it changes only
the finalized block, the round-estimate and the completable flag. -/
theorem update_eq :
    ∃ finalized estimate completable,
      round.update = .ok { round with finalized, estimate, completable } := by
  obtain ⟨votes, hg, -⟩ := hinv.graph
  by_cases hlt : round.prevote.currentWeight < round.threshold
  · exact ⟨round.finalized, round.estimate, round.completable, by simp [update, hlt]⟩
  cases hghost : round.prevoteGhost with
  | none =>
    -- the round returned as it is, its prevote-GHOST being the one split on
    have hret : round.update = .ok round := by simp [update, hlt, hghost]
    exact ⟨round.finalized, round.estimate, round.completable, hret.trans (by rw [← hghost])⟩
  | some g =>
    obtain ⟨gHash, gNum⟩ := g
    by_cases hpc : round.threshold ≤ round.precommit.currentWeight
    · -- a supermajority of precommits: the finalized block and the estimate are searched for
      obtain ⟨fin, hfin⟩ := VoteGraph.findAncestor_ok hg.toShape hg.good
        (weightAtLeast_safe hinv.equivocators_fit TotalWeight.precommit round.threshold) gHash gNum
      obtain ⟨est, hest⟩ := VoteGraph.findAncestor_ok hg.toShape hg.good
        (update_possible_safe hinv) gHash gNum
      cases est with
      | none => exact ⟨fin, none, false, by simp [update, hlt, hghost, hpc, hfin, hest]⟩
      | some b =>
        obtain ⟨bHash, bNum⟩ := b
        by_cases hb : bHash = gHash
        · -- the estimate is the prevote-GHOST: the GHOST of the possible precommits decides
          subst hb
          obtain ⟨ghost, hghost'⟩ := VoteGraph.findGhost_ok hg.toShape hg.good
            (update_possible_safe hinv) (some (bHash, bNum))
          cases ghost with
          | none =>
            exact ⟨fin, some (bHash, bNum), true,
              by simp [update, hlt, hghost, hpc, hfin, hest, hghost']⟩
          | some x =>
            exact ⟨fin, some (bHash, bNum), decide (x = (bHash, gNum)),
              by simp [update, hlt, hghost, hpc, hfin, hest, hghost']⟩
        · exact ⟨fin, some (bHash, bNum), true, by simp [update, hlt, hghost, hpc, hfin, hest, hb]⟩
    · exact ⟨round.finalized, some (gHash, gNum), round.completable,
        by simp [update, hlt, hghost, hpc]⟩

/-- `update` keeps the invariant and never panics. -/
theorem update_inv : ∃ round', round.update = .ok round' ∧ round'.Inv T ∧ round.Follows round' := by
  obtain ⟨finalized, estimate, completable, heq⟩ := update_eq hinv
  exact ⟨_, heq, hinv.of_eq rfl rfl rfl rfl rfl, ⟨rfl, rfl, fun _ hk => hk⟩⟩

/-- The GHOST searches of `import_prevote` and `precommit_ghost` never panic. -/
theorem findGhost_weightAtLeast_ok (kind : TotalWeight → UInt64) (currentBest : Option (H × ℕ)) :
    ∃ ghost, round.graph.findGhost VoteWeight.ops currentBest
      (weightAtLeast round.bitfieldContext.equivocators round.voters kind round.threshold) =
        .ok ghost := by
  obtain ⟨votes, hg, -⟩ := hinv.graph
  exact VoteGraph.findGhost_ok hg.toShape hg.good
    (weightAtLeast_safe hinv.equivocators_fit kind round.threshold) currentBest

end Update

variable [DecidableEq S] {round : Round Id H S} (hinv : round.Inv T) {chain : Chain H}
  (hchain : chain.Lawful T)
include hinv hchain

/-- **`import_prevote` keeps the invariant and never panics**, for a prevote whose number is
its block's.  The chain's error comes only for a block not above the base. -/
theorem importPrevote_inv (vote : Prevote H) (hnum : vote.targetNumber = T.number vote.targetHash)
    (signer : Id) (signature : S) :
    ∃ round' result, round.importPrevote chain vote signer signature = .ok (round', result) ∧
      round'.Inv T ∧ round.Follows round' ∧
        ∀ e, result = .error e → ¬ T.Descends round.graph.base vote.targetHash := by
  obtain ⟨round1, result, htrack, hinv1, hf1, herr, -⟩ :=
    trackVote_inv prevoteKind_lawful hinv hchain vote hnum signer signature
  rcases result with e | _ | equivocation
  · exact ⟨round1, .error e, by simp [importPrevote, htrack], hinv1, hf1,
      fun _ _ => herr e rfl⟩
  · exact ⟨round1, .ok none, by simp [importPrevote, htrack], hinv1, hf1, by simp⟩
  -- the vote was weighed: the prevote-GHOST is searched for once the prevotes reach the
  -- threshold, then the round is updated
  by_cases hpv : round1.threshold ≤ round1.prevote.currentWeight
  · obtain ⟨ghost, hghost⟩ := findGhost_weightAtLeast_ok hinv1 TotalWeight.prevote
      round1.prevoteGhost
    have hinv2 : { round1 with prevoteGhost := ghost }.Inv T := hinv1.of_eq rfl rfl rfl rfl rfl
    have hf2 : round1.Follows { round1 with prevoteGhost := ghost } := ⟨rfl, rfl, fun _ hk => hk⟩
    obtain ⟨round3, hupd, hinv3, hf3⟩ := update_inv hinv2
    exact ⟨round3, .ok equivocation, by simp [importPrevote, htrack, hpv, hghost, hupd], hinv3,
      (hf1.trans hf2).trans hf3, by simp⟩
  · obtain ⟨round3, hupd, hinv3, hf3⟩ := update_inv hinv1
    exact ⟨round3, .ok equivocation, by simp [importPrevote, htrack, hpv, hupd], hinv3,
      hf1.trans hf3, by simp⟩

/-- **`import_precommit` keeps the invariant and never panics**, for a precommit whose number
is its block's.  The chain's error comes only for a block not above the base, and an
equivocation is reported only for a voter that had voted once, whose precommit bit is then set
among the equivocators. -/
theorem importPrecommit_inv (vote : Precommit H)
    (hnum : vote.targetNumber = T.number vote.targetHash) (signer : Id) (signature : S) :
    ∃ round' result, round.importPrecommit chain vote signer signature = .ok (round', result) ∧
      round'.Inv T ∧ round.Follows round' ∧
        (∀ e, result = .error e → ¬ T.Descends round.graph.base vote.targetHash) ∧
        ∀ e, result = .ok (some e) → ∃ info v s, round.voters.info signer = some info ∧
          round.precommit.votes.lookup signer = some (.single v s) ∧
          round'.bitfieldContext.equivocators.bit (2 * info.canonIdx + 1) = true := by
  obtain ⟨round1, result, htrack, hinv1, hf1, herr, hequiv⟩ :=
    trackVote_inv precommitKind_lawful hinv hchain vote hnum signer signature
  rcases result with e | _ | equivocation
  · exact ⟨round1, .error e, by simp [importPrecommit, htrack], hinv1, hf1,
      fun _ _ => herr e rfl, by simp⟩
  · exact ⟨round1, .ok none, by simp [importPrecommit, htrack], hinv1, hf1, by simp, by simp⟩
  · obtain ⟨round3, hupd, hinv3, hf3⟩ := update_inv hinv1
    refine ⟨round3, .ok equivocation, by simp [importPrecommit, htrack, hupd], hinv3,
      hf1.trans hf3, by simp, ?_⟩
    -- `update` keeps the equivocators the vote's tracking has set
    intro e he
    obtain rfl : equivocation = some e := Except.ok.inj he
    obtain ⟨info, v, s, hinfo, hsingle, hbit⟩ := hequiv e rfl
    exact ⟨info, v, s, hinfo, hsingle, hf3.equivocators _ hbit⟩

omit [DecidableEq S] hchain in
/-- **`precommit_ghost` keeps the invariant and never panics.** -/
theorem precommitGhost'_inv :
    ∃ round' ghost, round.precommitGhost' = .ok (round', ghost) ∧ round'.Inv T ∧
      round.Follows round' := by
  by_cases hpc : round.threshold ≤ round.precommit.currentWeight
  · obtain ⟨ghost, hghost⟩ := findGhost_weightAtLeast_ok hinv TotalWeight.precommit
      round.precommitGhost
    exact ⟨{ round with precommitGhost := ghost }, ghost, by simp [precommitGhost', hpc, hghost],
      hinv.of_eq rfl rfl rfl rfl rfl, ⟨rfl, rfl, fun _ hk => hk⟩⟩
  · exact ⟨round, round.precommitGhost, by simp [precommitGhost', hpc], hinv, .refl round⟩

end Round

/-! ## Runs -/

/-- A call of the voter on its round: an import of a signed prevote or precommit, or the
computation of the precommit-GHOST. -/
inductive RoundCall (Id H S : Type) where
  | importPrevote (vote : Prevote H) (signer : Id) (signature : S)
  | importPrecommit (vote : Precommit H) (signer : Id) (signature : S)
  | precommitGhost

namespace RoundCall

variable {Id H S : Type}

/-- The call's vote, if any, carries its block's number. -/
def Numbered (T : BlockTree H) : RoundCall Id H S → Prop
  | importPrevote vote _ _ => vote.targetNumber = T.number vote.targetHash
  | importPrecommit vote _ _ => vote.targetNumber = T.number vote.targetHash
  | precommitGhost => True

end RoundCall

namespace Round

variable {Id H S : Type} [DecidableEq Id] [DecidableEq H] [DecidableEq S] [Inhabited H]

/-- The round after a call, whatever the call returns. -/
def call (chain : Chain H) : RoundCall Id H S → Round Id H S → Except Panic (Round Id H S)
  | .importPrevote vote signer signature, round => do
    let (round, _) ← round.importPrevote chain vote signer signature
    pure round
  | .importPrecommit vote signer signature, round => do
    let (round, _) ← round.importPrecommit chain vote signer signature
    pure round
  | .precommitGhost, round => do
    let (round, _) ← round.precommitGhost'
    pure round

/-- The round after a run of calls, one after another. -/
def run (chain : Chain H) : List (RoundCall Id H S) → Round Id H S → Except Panic (Round Id H S)
  | [], round => pure round
  | c :: rest, round => do run chain rest (← round.call chain c)

variable {T : BlockTree H} {chain : Chain H} (hchain : chain.Lawful T)
include hchain

/-- **A call keeps the invariant and never panics**, for a vote that carries its block's
number. -/
theorem call_inv {round : Round Id H S} (hinv : round.Inv T) {c : RoundCall Id H S}
    (hc : c.Numbered T) :
    ∃ round', round.call chain c = .ok round' ∧ round'.Inv T ∧ round.Follows round' := by
  cases c with
  | importPrevote vote signer signature =>
    obtain ⟨round', result, himport, hinv', hf, -⟩ :=
      importPrevote_inv hinv hchain vote hc signer signature
    exact ⟨round', by simp [call, himport], hinv', hf⟩
  | importPrecommit vote signer signature =>
    obtain ⟨round', result, himport, hinv', hf, -⟩ :=
      importPrecommit_inv hinv hchain vote hc signer signature
    exact ⟨round', by simp [call, himport], hinv', hf⟩
  | precommitGhost =>
    obtain ⟨round', ghost, hghost, hinv', hf⟩ := precommitGhost'_inv hinv
    exact ⟨round', by simp [call, hghost], hinv', hf⟩

/-- **A run keeps the invariant and never panics**, by induction on the calls. -/
theorem run_inv {calls : List (RoundCall Id H S)} (hcalls : ∀ c ∈ calls, c.Numbered T) :
    ∀ {round : Round Id H S}, round.Inv T →
      ∃ round', round.run chain calls = .ok round' ∧ round'.Inv T ∧ round.Follows round' := by
  induction calls with
  | nil => exact fun hinv => ⟨_, rfl, hinv, .refl _⟩
  | cons c rest ih =>
    intro round hinv
    obtain ⟨round1, hcall, hinv1, hf1⟩ := call_inv hchain hinv (hcalls c (.head rest))
    obtain ⟨round', hrun, hinv', hf'⟩ := ih (fun c hc => hcalls c (.tail _ hc)) hinv1
    exact ⟨round', by simp [run, hcall, hrun], hinv', hf1.trans hf'⟩

end Round

/-! ## What the invariant says -/

namespace VoteGraph

variable {H V β : Type} [DecidableEq H] {T : BlockTree H}

/-- A bit is in the join of the votes on or above `h`, read as sets, when one of them holds
it. -/
theorem mem_joinedVote (α : V → Set β) (votes : List (H × V)) (h : H) (k : β) :
    k ∈ joinedVote T α votes h ↔ ∃ t v, (t, v) ∈ votes ∧ T.Descends h t ∧ k ∈ α v := by
  induction votes with
  | nil => simp [joinedVote]
  | cons tv votes ih =>
    obtain ⟨t, v⟩ := tv
    by_cases hd : T.Descends h t
    · simp only [joinedVote, hd, if_true, Set.sup_eq_union, Set.mem_union, ih, List.mem_cons,
        Prod.mk.injEq]
      constructor
      · rintro (hk | ⟨t', v', hmem, hd', hk⟩)
        · exact ⟨t, v, .inl ⟨rfl, rfl⟩, hd, hk⟩
        · exact ⟨t', v', .inr hmem, hd', hk⟩
      · rintro ⟨t', v', ⟨rfl, rfl⟩ | hmem, hd', hk⟩
        · exact .inl hk
        · exact .inr ⟨t', v', hmem, hd', hk⟩
    · simp only [joinedVote, hd, if_false, Set.bot_eq_empty, Set.sup_eq_union, Set.mem_union,
        Set.mem_empty_iff_false, false_or, ih, List.mem_cons, Prod.mk.injEq]
      constructor
      · rintro ⟨t', v', hmem, hd', hk⟩
        exact ⟨t', v', .inr hmem, hd', hk⟩
      · rintro ⟨t', v', ⟨rfl, rfl⟩ | hmem, hd', hk⟩
        · exact absurd hd' hd
        · exact ⟨t', v', hmem, hd', hk⟩

end VoteGraph

namespace VoteTracker

variable {Id Vote Signature H : Type} [DecidableEq Id] {voterSet : VoterSet Id}
  {target : Vote → H} {offset : ℕ} {tracker : VoteTracker Id Vote Signature}

/-- A first vote's bit sits at its offset in the voter's pair. -/
theorem FirstOn.mod_two {t : H} {k : ℕ} (hk : tracker.FirstOn voterSet target offset t k)
    (hoffset : offset < 2) : k % 2 = offset := by
  obtain ⟨_, _, _, -, rfl, -, -⟩ := hk
  omega

/-- An equivocator's bit sits at its offset in the voter's pair. -/
theorem EquivocatorAt.mod_two {k : ℕ} (hk : tracker.EquivocatorAt voterSet offset k)
    (hoffset : offset < 2) : k % 2 = offset := by
  obtain ⟨_, _, _, -, rfl, -, -⟩ := hk
  omega

end VoteTracker

namespace Round

variable {Id H S : Type} [DecidableEq Id] [DecidableEq H] {T : BlockTree H}
  {round : Round Id H S} {t : H} {i : ℕ}

/-- An even bit is cast by a prevote. -/
theorem castOn_even :
    round.CastOn t (2 * i) ↔ round.prevote.FirstOn round.voters Prevote.targetHash 0 t (2 * i) :=
  or_iff_left fun hk => absurd (hk.mod_two one_lt_two) (by omega)

/-- An odd bit is cast by a precommit. -/
theorem castOn_odd : round.CastOn t (2 * i + 1) ↔
    round.precommit.FirstOn round.voters Precommit.targetHash 1 t (2 * i + 1) :=
  or_iff_right fun hk => absurd (hk.mod_two two_pos) (by omega)

/-- An even bit marks a prevote equivocator. -/
theorem equivocator_even :
    round.Equivocator (2 * i) ↔ round.prevote.EquivocatorAt round.voters 0 (2 * i) :=
  or_iff_left fun hk => absurd (hk.mod_two one_lt_two) (by omega)

/-- An odd bit marks a precommit equivocator. -/
theorem equivocator_odd :
    round.Equivocator (2 * i + 1) ↔ round.precommit.EquivocatorAt round.voters 1 (2 * i + 1) :=
  or_iff_right fun hk => absurd (hk.mod_two two_pos) (by omega)

/-- A node's cumulative vote holds the bits of the first votes cast on it or above it. -/
theorem Inv.bit_cumulative (hinv : round.Inv T) {h : H} {e : Entry H VoteWeight}
    (he : round.graph.entries.lookup h = some e) (k : ℕ) :
    e.cumulativeVote.bitfield.bit k = true ↔ ∃ t, T.Descends h t ∧ round.CastOn t k := by
  obtain ⟨votes, hg, hcasts⟩ := hinv.graph
  have hcum : k ∈ VoteWeight.bits e.cumulativeVote ↔ _ := Set.ext_iff.mp (hg.cumulative h e he) k
  have hbase := hg.descends_base h (VoteGraph.mem_of_lookup he)
  rw [VoteGraph.mem_joinedVote] at hcum
  change k ∈ VoteWeight.bits e.cumulativeVote ↔ _
  rw [hcum]
  constructor
  · rintro ⟨t, w, hw, hd, hk⟩
    exact ⟨t, hd, ((hcasts t k).mp ⟨w, hw, hk⟩).2⟩
  · rintro ⟨t, hd, hc⟩
    obtain ⟨w, hw, hk⟩ := (hcasts t k).mpr ⟨hbase.trans hd, hc⟩
    exact ⟨t, w, hw, hd, hk⟩

open Classical in
/-- **The weights a search reads at a node**: of the prevotes, those of the voters whose first
prevote is on the node or above it, or who equivocated in prevotes, each counted once; of the
precommits likewise. -/
theorem Inv.totalWeight_cumulative (hinv : round.Inv T) {h : H} {e : Entry H VoteWeight}
    (he : round.graph.entries.lookup h = some e) :
    e.cumulativeVote.totalWeight round.bitfieldContext.equivocators round.voters = .ok
      ⟨∑ i ∈ Finset.range round.voters.len,
          if (∃ t, T.Descends h t ∧
                round.prevote.FirstOn round.voters Prevote.targetHash 0 t (2 * i)) ∨
              round.prevote.EquivocatorAt round.voters 0 (2 * i) then
            (round.voters.weightByIndex i).getD 0 else 0,
        ∑ i ∈ Finset.range round.voters.len,
          if (∃ t, T.Descends h t ∧
                round.precommit.FirstOn round.voters Precommit.targetHash 1 t (2 * i + 1)) ∨
              round.precommit.EquivocatorAt round.voters 1 (2 * i + 1) then
            (round.voters.weightByIndex i).getD 0 else 0⟩ := by
  obtain ⟨votes, hg, -⟩ := hinv.graph
  rw [VoteWeight.totalWeight_eq (hg.good h e he) hinv.equivocators_fit]
  have hpre : ∀ i, (e.cumulativeVote.bitfield.bit (2 * i) ||
      round.bitfieldContext.equivocators.bit (2 * i)) = true ↔
        (∃ t, T.Descends h t ∧
          round.prevote.FirstOn round.voters Prevote.targetHash 0 t (2 * i)) ∨
        round.prevote.EquivocatorAt round.voters 0 (2 * i) := by
    intro i
    rw [Bool.or_eq_true, hinv.bit_cumulative he, hinv.equivocators, equivocator_even]
    simp only [castOn_even]
  have hpost : ∀ i, (e.cumulativeVote.bitfield.bit (2 * i + 1) ||
      round.bitfieldContext.equivocators.bit (2 * i + 1)) = true ↔
        (∃ t, T.Descends h t ∧
          round.precommit.FirstOn round.voters Precommit.targetHash 1 t (2 * i + 1)) ∨
        round.precommit.EquivocatorAt round.voters 1 (2 * i + 1) := by
    intro i
    rw [Bool.or_eq_true, hinv.bit_cumulative he, hinv.equivocators, equivocator_odd]
    simp only [castOn_odd]
  congr 2
  · exact Finset.sum_congr rfl fun i _ => if_congr (hpre i) rfl rfl
  · exact Finset.sum_congr rfl fun i _ => if_congr (hpost i) rfl rfl

/-- A voter seen precommitting once has its precommit bit unset among the equivocators. -/
theorem Inv.precommit_bit_of_single [DecidableEq S] (hinv : round.Inv T) {id : Id}
    {info : VoterInfo} (hinfo : round.voters.info id = some info) {v : Precommit H} {s : S}
    (hsingle : round.precommit.votes.lookup id = some (.single v s)) :
    round.bitfieldContext.equivocators.bit (2 * info.canonIdx + 1) = false := by
  rw [Bool.eq_false_iff, ne_eq, hinv.equivocators, equivocator_odd]
  rintro ⟨id', info', m, hinfo', hk, hm, hequiv⟩
  -- the bit is the voter's own, whose vote is single
  have hid : id' = id := hinv.voters.eq_of_canonIdx_eq hinfo' hinfo (by omega)
  subst hid
  rw [hsingle, Option.some.injEq] at hm
  subst hm
  simp [VoteMultiplicity.isEquivocated] at hequiv

end Round

/-! ## Validating a commit -/

variable {H : Type} [DecidableEq H] {T : BlockTree H}

/-- A lawful chain's `is_equal_or_descendent_of` decides ancestry in the block tree. -/
theorem Chain.Lawful.isEqualOrDescendentOf {chain : Chain H} (hchain : chain.Lawful T)
    (base block : H) : chain.isEqualOrDescendentOf base block = decide (T.Descends base block) := by
  by_cases heq : base = block
  · subst heq
    simp [Chain.isEqualOrDescendentOf, BlockTree.descends_refl]
  rw [Chain.isEqualOrDescendentOf, if_neg heq, hchain]
  by_cases hlt : T.number base < T.number block ∧ T.ancestorAt block (T.number base) = base
  · simp [hlt, BlockTree.Descends, hlt.1.le]
  · -- a descendant of another number is strictly above
    have hnd : ¬ T.Descends base block := fun hd =>
      hlt ⟨lt_of_le_of_ne hd.1 fun hn => heq (hd.eq_of_number_eq hn), hd.2⟩
    simp [hlt, hnd]

namespace Round

variable {Id S : Type} [DecidableEq Id] [DecidableEq S] [Inhabited H] {chain : Chain H}

omit [DecidableEq S] [Inhabited H] in
/-- A marked precommit equivocator stays marked in a round that follows. -/
theorem Follows.precommit_marked {round round' : Round Id H S} (hf : round.Follows round')
    {id : Id} (hmarked : ∃ info, round.voters.info id = some info ∧
      round.bitfieldContext.equivocators.bit (2 * info.canonIdx + 1) = true) :
    ∃ info, round'.voters.info id = some info ∧
      round'.bitfieldContext.equivocators.bit (2 * info.canonIdx + 1) = true := by
  obtain ⟨info, hinfo, hbit⟩ := hmarked
  exact ⟨info, by rw [hf.voters]; exact hinfo, hf.equivocators _ hbit⟩

/-- **The loop of `validate_commit` is a run of imports.**  On precommits above the round's
base, at their blocks' numbers, it imports every one of them: the chain's error never comes,
and its check of one equivocation per voter never fires, since a voter it has seen equivocate
is marked among the equivocators and is not reported again.  By induction on the
precommits. -/
theorem importCommitPrecommits_run (hchain : chain.Lawful T) {base : H} :
    ∀ {precommits : List (SignedPrecommit H S Id)} {equivocated : List Id}
      {round : Round Id H S},
      (∀ p ∈ precommits, p.precommit.targetNumber = T.number p.precommit.targetHash ∧
        T.Descends base p.precommit.targetHash) →
      round.Inv T → round.graph.base = base →
      (∀ id ∈ equivocated, ∃ info, round.voters.info id = some info ∧
        round.bitfieldContext.equivocators.bit (2 * info.canonIdx + 1) = true) →
      ∃ round', importCommitPrecommits chain precommits equivocated round = .ok (.ok (some round')) ∧
        round.run chain (precommits.map fun p => .importPrecommit p.precommit p.id p.signature) =
          .ok round' ∧ round'.Inv T := by
  intro precommits
  induction precommits with
  | nil => exact fun _ hinv _ _ => ⟨_, rfl, rfl, hinv⟩
  | cons p rest ih =>
    intro equivocated round hps hinv hbase hmarked
    obtain ⟨hnum, habove⟩ := hps p (.head rest)
    have hrest : ∀ q ∈ rest, q.precommit.targetNumber = T.number q.precommit.targetHash ∧
        T.Descends base q.precommit.targetHash := fun q hq => hps q (.tail _ hq)
    obtain ⟨round1, result, himport, hinv1, hf1, herr, hequiv⟩ :=
      importPrecommit_inv hinv hchain p.precommit hnum p.id p.signature
    have hbase1 : round1.graph.base = base := hf1.base.trans hbase
    rcases result with e | _ | equivocation
    · exact absurd (hbase ▸ habove) (herr e rfl)
    · -- no equivocation: the loop goes on with the same voters marked
      obtain ⟨round', hloop, hrun, hinv'⟩ :=
        ih hrest hinv1 hbase1 fun id hid => hf1.precommit_marked (hmarked id hid)
      exact ⟨round', by simp [importCommitPrecommits, himport, hloop],
        by simp [run, call, himport, hrun], hinv'⟩
    · -- an equivocation: its voter had voted once, so was not marked, and is marked now
      obtain ⟨info, v, s, hinfo, hsingle, hbit⟩ := hequiv equivocation rfl
      have hnew : p.id ∉ equivocated := by
        intro hmem
        obtain ⟨info', hinfo', hbit'⟩ := hmarked p.id hmem
        rw [hinfo, Option.some.injEq] at hinfo'
        subst hinfo'
        rw [hinv.precommit_bit_of_single hinfo hsingle] at hbit'
        exact Bool.false_ne_true hbit'
      have hmarked' : ∀ id ∈ equivocated ++ [p.id], ∃ info, round1.voters.info id = some info ∧
          round1.bitfieldContext.equivocators.bit (2 * info.canonIdx + 1) = true := by
        intro id hid
        rcases List.mem_append.mp hid with hid | hid
        · exact hf1.precommit_marked (hmarked id hid)
        · rw [List.mem_singleton.mp hid, hf1.voters]
          exact ⟨info, hinfo, hbit⟩
      obtain ⟨round', hloop, hrun, hinv'⟩ := ih hrest hinv1 hbase1 hmarked'
      exact ⟨round', by simp [importCommitPrecommits, himport, hnew, hloop],
        by simp [run, call, himport, hrun], hinv'⟩

/-- **`validate_commit` is the precommit-GHOST of the commit's precommits.**  On a commit whose
precommits are all on or above its target, at their blocks' numbers, it never panics and never
meets the chain's error: its result is the precommit-GHOST of a fresh round on the target
after the precommits are imported in order. -/
theorem validateCommit_eq (hchain : chain.Lawful T) (commit : Commit H S Id)
    (voters : VoterSet Id) (hwf : voters.WellFormed)
    (htarget : commit.targetNumber = T.number commit.targetHash)
    (hprecommits : ∀ p ∈ commit.precommits,
      p.precommit.targetNumber = T.number p.precommit.targetHash ∧
        T.Descends commit.targetHash p.precommit.targetHash) :
    ∃ round, (Round.new ⟨0, voters, (commit.targetHash, commit.targetNumber)⟩ : Round Id H S).run
        chain (commit.precommits.map fun p => .importPrecommit p.precommit p.id p.signature) =
          .ok round ∧
      ∃ round' ghost, round.precommitGhost' = .ok (round', ghost) ∧
        validateCommit commit voters chain = .ok (.ok ghost) := by
  have hinv := inv_new (S := S) T ⟨0, voters, (commit.targetHash, commit.targetNumber)⟩ hwf
    htarget
  -- every precommit passes the check of height and ancestry
  have hall : (commit.precommits.all fun signed =>
      decide (signed.precommit.targetNumber ≥ commit.targetNumber) &&
        chain.isEqualOrDescendentOf commit.targetHash signed.precommit.targetHash) = true := by
    rw [List.all_eq_true]
    intro p hp
    obtain ⟨hnum, hd⟩ := hprecommits p hp
    simp [hchain.isEqualOrDescendentOf, hd, hnum, htarget, hd.1]
  obtain ⟨round, hloop, hrun, hinv'⟩ :=
    importCommitPrecommits_run hchain hprecommits hinv rfl fun _ hid => absurd hid List.not_mem_nil
  obtain ⟨round', ghost, hghost, -, -⟩ := precommitGhost'_inv hinv'
  exact ⟨round, hrun, round', ghost, hghost, by simp [validateCommit, hall, hloop, hghost]⟩

/-- A commit of three precommits on or above block 2 of the line, one of them on the target
itself, from four voters of weight one. -/
theorem validateCommit_eq_line : ∃ round,
    (Round.new ⟨0, VoterSet.fromIter [(0, 1), (1, 1), (2, 1), (3, 1)], (2, 2)⟩ :
      Round ℕ ℕ ℕ).run (Chain.ofTree BlockTree.line)
        (([⟨⟨3, 3⟩, 0, 0⟩, ⟨⟨2, 2⟩, 0, 1⟩, ⟨⟨4, 4⟩, 0, 2⟩] : List (SignedPrecommit ℕ ℕ ℕ)).map
          fun p => .importPrecommit p.precommit p.id p.signature) = .ok round ∧
      ∃ round' ghost, round.precommitGhost' = .ok (round', ghost) ∧
        validateCommit ⟨2, 2, [⟨⟨3, 3⟩, 0, 0⟩, ⟨⟨2, 2⟩, 0, 1⟩, ⟨⟨4, 4⟩, 0, 2⟩]⟩
          (VoterSet.fromIter [(0, 1), (1, 1), (2, 1), (3, 1)]) (Chain.ofTree BlockTree.line) =
            .ok (.ok ghost) :=
  validateCommit_eq (Chain.ofTree_lawful BlockTree.line)
    ⟨2, 2, [⟨⟨3, 3⟩, 0, 0⟩, ⟨⟨2, 2⟩, 0, 1⟩, ⟨⟨4, 4⟩, 0, 2⟩]⟩
    (VoterSet.fromIter [(0, 1), (1, 1), (2, 1), (3, 1)]) (VoterSet.wellFormed_fromIter _) rfl
    (by decide)

/-! ## Runs from `Round::new` -/

omit [DecidableEq S] [Inhabited H] in
@[simp]
theorem new_voters (roundParams : RoundParams Id H) :
    (Round.new roundParams : Round Id H S).voters = roundParams.voters := by
  obtain ⟨roundNumber, voters, baseHash, baseNumber⟩ := roundParams
  rfl

/-- A run of calls from `Round::new` keeps the invariant and its voters, and never panics. -/
theorem run_new_inv (hchain : chain.Lawful T) (roundParams : RoundParams Id H)
    (hwf : roundParams.voters.WellFormed)
    (hbase : roundParams.base.2 = T.number roundParams.base.1)
    {calls : List (RoundCall Id H S)} (hcalls : ∀ c ∈ calls, c.Numbered T) :
    ∃ round, (Round.new roundParams).run chain calls = .ok round ∧ round.Inv T ∧
      round.voters = roundParams.voters := by
  obtain ⟨round, hrun, hinv, hf⟩ := run_inv hchain hcalls (inv_new T roundParams hwf hbase)
  exact ⟨round, hrun, hinv, hf.voters.trans (new_voters roundParams)⟩

/-- **A run of calls from `Round::new` never panics**, on a chain that answers ancestry from
the block tree, with a well-formed voter set, a base at its number and votes at their blocks'
numbers.  The round it reaches keeps its voters, counts each voter it has seen once in each
tracker's current weight, and marks among the equivocators exactly the voters it has seen
equivocate. -/
theorem run_new_accounts (hchain : chain.Lawful T) (roundParams : RoundParams Id H)
    (hwf : roundParams.voters.WellFormed)
    (hbase : roundParams.base.2 = T.number roundParams.base.1)
    {calls : List (RoundCall Id H S)} (hcalls : ∀ c ∈ calls, c.Numbered T) :
    ∃ round, (Round.new roundParams).run chain calls = .ok round ∧
      round.voters = roundParams.voters ∧
      round.prevote.currentWeight = VoteTracker.seenWeight round.voters round.prevote ∧
      round.precommit.currentWeight = VoteTracker.seenWeight round.voters round.precommit ∧
      ∀ k, round.bitfieldContext.equivocators.bit k = true ↔ round.Equivocator k := by
  obtain ⟨round, hrun, hinv, hvoters⟩ := run_new_inv hchain roundParams hwf hbase hcalls
  exact ⟨round, hrun, hvoters, hinv.trackers.1.currentWeight, hinv.trackers.2.currentWeight,
    hinv.equivocators⟩

/-- Four voters of weight one on the line: two prevotes, a repeated one, a precommit and the
precommit-GHOST. -/
theorem run_new_accounts_line : ∃ round,
    (Round.new ⟨0, VoterSet.fromIter [(0, 1), (1, 1), (2, 1), (3, 1)], (0, 0)⟩ :
      Round ℕ ℕ ℕ).run (Chain.ofTree BlockTree.line)
        [.importPrevote ⟨2, 2⟩ 0 0, .importPrevote ⟨3, 3⟩ 1 0, .importPrevote ⟨3, 3⟩ 1 0,
          .importPrecommit ⟨2, 2⟩ 0 0, .precommitGhost] = .ok round ∧
      round.voters = VoterSet.fromIter [(0, 1), (1, 1), (2, 1), (3, 1)] ∧
      round.prevote.currentWeight = VoteTracker.seenWeight round.voters round.prevote ∧
      round.precommit.currentWeight = VoteTracker.seenWeight round.voters round.precommit ∧
      ∀ k, round.bitfieldContext.equivocators.bit k = true ↔ round.Equivocator k :=
  run_new_accounts (Chain.ofTree_lawful BlockTree.line) _
    (VoterSet.wellFormed_fromIter [(0, 1), (1, 1), (2, 1), (3, 1)]) rfl
    (by simp [RoundCall.Numbered, BlockTree.line])

open Classical in
/-- **The weights the searches read after a run from `Round::new`**: at every node, the
prevote weight is that of the voters whose first prevote is on the node or above it, or who
equivocated in prevotes, each counted once; the precommit weight likewise. -/
theorem run_new_node_weights (hchain : chain.Lawful T) (roundParams : RoundParams Id H)
    (hwf : roundParams.voters.WellFormed)
    (hbase : roundParams.base.2 = T.number roundParams.base.1)
    {calls : List (RoundCall Id H S)} (hcalls : ∀ c ∈ calls, c.Numbered T) :
    ∃ round, (Round.new roundParams).run chain calls = .ok round ∧
      ∀ h e, round.graph.entries.lookup h = some e →
        e.cumulativeVote.totalWeight round.bitfieldContext.equivocators round.voters = .ok
          ⟨∑ i ∈ Finset.range round.voters.len,
              if (∃ t, T.Descends h t ∧
                    round.prevote.FirstOn round.voters Prevote.targetHash 0 t (2 * i)) ∨
                  round.prevote.EquivocatorAt round.voters 0 (2 * i) then
                (round.voters.weightByIndex i).getD 0 else 0,
            ∑ i ∈ Finset.range round.voters.len,
              if (∃ t, T.Descends h t ∧
                    round.precommit.FirstOn round.voters Precommit.targetHash 1 t (2 * i + 1)) ∨
                  round.precommit.EquivocatorAt round.voters 1 (2 * i + 1) then
                (round.voters.weightByIndex i).getD 0 else 0⟩ := by
  obtain ⟨round, hrun, hinv, -⟩ := run_new_inv hchain roundParams hwf hbase hcalls
  exact ⟨round, hrun, fun _ _ he => hinv.totalWeight_cumulative he⟩

open Classical in
/-- Three voters of weight one on the line, prevoting and precommitting on blocks 1 and 2. -/
theorem run_new_node_weights_line : ∃ round,
    (Round.new ⟨0, VoterSet.fromIter [(0, 1), (1, 1), (2, 1)], (0, 0)⟩ :
      Round ℕ ℕ ℕ).run (Chain.ofTree BlockTree.line)
        [.importPrevote ⟨1, 1⟩ 0 0, .importPrevote ⟨2, 2⟩ 1 0, .importPrecommit ⟨2, 2⟩ 2 0] =
          .ok round ∧
      ∀ h e, round.graph.entries.lookup h = some e →
        e.cumulativeVote.totalWeight round.bitfieldContext.equivocators round.voters = .ok
          ⟨∑ i ∈ Finset.range round.voters.len,
              if (∃ t, BlockTree.line.Descends h t ∧
                    round.prevote.FirstOn round.voters Prevote.targetHash 0 t (2 * i)) ∨
                  round.prevote.EquivocatorAt round.voters 0 (2 * i) then
                (round.voters.weightByIndex i).getD 0 else 0,
            ∑ i ∈ Finset.range round.voters.len,
              if (∃ t, BlockTree.line.Descends h t ∧
                    round.precommit.FirstOn round.voters Precommit.targetHash 1 t (2 * i + 1)) ∨
                  round.precommit.EquivocatorAt round.voters 1 (2 * i + 1) then
                (round.voters.weightByIndex i).getD 0 else 0⟩ :=
  run_new_node_weights (Chain.ofTree_lawful BlockTree.line) _
    (VoterSet.wellFormed_fromIter [(0, 1), (1, 1), (2, 1)]) rfl
    (by simp [RoundCall.Numbered, BlockTree.line])

end Round

end Grandpa
end Yeeroot

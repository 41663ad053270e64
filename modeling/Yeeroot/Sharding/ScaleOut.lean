import Yeeroot.Srml.Sharding
import Yeeroot.Pow.Verifier
import Yeeroot.Machine.Run

/-!
# Scale-out phase agreement between the runtime and the verifier

The scale-out protocol is written twice.  The runtime (`Srml.Sharding`) keeps the phase in
storage and advances it in `set_shard_info`; the verifier (`Pow.scaleOutPhaseOk`) accepts a
header only if its phase digest may follow its parent's.  This file relates the two through
a third, abstract description of what the protocol is for.

* `Spec`: the protocol as a countdown machine.  A request starts the observation; each of
  `started`, `nativeReady`, `ready` lasts `k` blocks; `committing` and `committed` last one
  block each, and the protocol returns to `idle`.  `Spec.run_countdown` and
  `Spec.run_advance` say how long each timed phase lasts.
* `importBlock`: one block of the runtime, and `abstraction`, which reads the countdown off
  the stored `observe_util`.  `abstraction_importBlock` says that the runtime refines the
  countdown machine as long as block numbers plus `k` stay below `2 ^ 64`.
* `scaleOutPhaseOk_importBlock`: the verifier accepts every block of the runtime, read
  through the digests that `on_finalize` deposits, whenever the block's shard marker agrees
  with the phase it continues (`MarkerAgrees`).

The main result `scale_out_phase_agreement` assembles these over a whole run of the
environment the node provides: one shard marker `(num, count)` up to the block that commits
the scale-out and `(target, 2 * count)` from it on.
-/

namespace Yeeroot
namespace ScaleOut

open Scale Substrate Machine

/-! ## The protocol -/

/-- The phases of a scale-out. -/
inductive Phase where
  | idle
  | started
  | nativeReady
  | ready
  | committing
  | committed
deriving DecidableEq

namespace Phase

/-- The phase that follows. -/
def next : Phase → Phase
  | idle => started
  | started => nativeReady
  | nativeReady => ready
  | ready => committing
  | committing => committed
  | committed => idle

/-- The phases that wait for an observation window. -/
def IsTimed : Phase → Prop
  | started | nativeReady | ready => True
  | _ => False

instance : DecidablePred IsTimed
  | started | nativeReady | ready => isTrue trivial
  | idle | committing | committed => isFalse id

end Phase

/-- The protocol's state: the phase, and the blocks left in it when it is timed. -/
structure Spec where
  phase : Phase
  left : ℕ
deriving DecidableEq

namespace Spec

/-- One block of the protocol with observation length `k`; `request` says whether the block
asks for a scale-out. -/
def step (k : ℕ) (s : Spec) (request : Bool) : Spec :=
  match s.phase with
  | .idle => if request then ⟨.started, k⟩ else ⟨.idle, 0⟩
  | .committing => ⟨.committed, 0⟩
  | .committed => ⟨.idle, 0⟩
  | p => if s.left = 1 then ⟨p.next, if p.next.IsTimed then k else 0⟩ else ⟨p, s.left - 1⟩

/-- A block keeps the phase or moves to the next one. -/
lemma step_phase (k : ℕ) (s : Spec) (request : Bool) :
    (s.step k request).phase = s.phase ∨ (s.step k request).phase = s.phase.next := by
  obtain ⟨p, left⟩ := s
  cases p with
  | idle => cases request <;> simp [step, Phase.next]
  | committing | committed => simp [step, Phase.next]
  | started | nativeReady | ready => by_cases h : left = 1 <;> simp [step, Phase.next, h]

/-- A block that moves into a timed phase opens a full window of `k` blocks. -/
lemma step_enter (k : ℕ) (s : Spec) (request : Bool) (hne : (s.step k request).phase ≠ s.phase)
    (htimed : (s.step k request).phase.IsTimed) : (s.step k request).left = k := by
  obtain ⟨p, left⟩ := s
  cases p with
  | idle => cases request <;> simp_all [step]
  | committing | committed => simp_all [step, Phase.IsTimed]
  | started | nativeReady | ready =>
    by_cases h : left = 1
    · simp_all [step, Phase.next, Phase.IsTimed]
    · simp_all [step]

/-- A timed phase with more than one block left counts down. -/
lemma step_countdown (k : ℕ) {p : Phase} (hp : p.IsTimed) {left : ℕ} (hleft : left ≠ 1)
    (request : Bool) : step k ⟨p, left⟩ request = ⟨p, left - 1⟩ := by
  cases p <;> simp_all [step, Phase.IsTimed]

/-- A timed phase with one block left moves on. -/
lemma step_advance (k : ℕ) {p : Phase} (hp : p.IsTimed) (request : Bool) :
    step k ⟨p, 1⟩ request = ⟨p.next, if p.next.IsTimed then k else 0⟩ := by
  cases p <;> simp_all [step, Phase.IsTimed]

/-- **A timed phase entered with `left` blocks stays for them**, whatever the requests. -/
theorem run_countdown (k : ℕ) {p : Phase} (hp : p.IsTimed) (requests : ℕ → Bool) {left : ℕ}
    {j : ℕ} (hj : j < left) : run (step k) ⟨p, left⟩ requests j = ⟨p, left - j⟩ := by
  induction j with
  | zero => rfl
  | succ j ih =>
    rw [run_succ, ih (by omega), step_countdown k hp (by omega)]
    congr 1

/-- **A timed phase entered with `left ≥ 1` blocks is left after them.** -/
theorem run_advance (k : ℕ) {p : Phase} (hp : p.IsTimed) (requests : ℕ → Bool) {left : ℕ}
    (hleft : 1 ≤ left) :
    run (step k) ⟨p, left⟩ requests left = ⟨p.next, if p.next.IsTimed then k else 0⟩ := by
  obtain ⟨j, rfl⟩ : ∃ j, left = j + 1 := ⟨left - 1, by omega⟩
  rw [run_succ, run_countdown k hp requests (by omega), show j + 1 - j = 1 by omega,
    step_advance k hp]

end Spec

/-! ## The runtime, block by block -/

/-- The runtime's scale-out phase, at its block and shard number types. -/
abbrev RuntimePhase := Srml.Sharding.ScaleOutPhase UInt64 UInt16

/-- The runtime's storage, at its block and shard number types. -/
abbrev Storage := Srml.Sharding.Storage UInt64 UInt16

/-- A block's inherent shard info. -/
abbrev ShardInfo := Srml.Sharding.ShardInfo UInt16

/-- One block of the runtime: `system` moves to the next block number, and the block's
inherent `set_shard_info` is applied. -/
def importBlock (st : Storage) (info : ShardInfo) : Storage :=
  let st := { st with blockNumber := st.blockNumber + 1 }
  match Srml.Sharding.setShardInfo (.inherent : RawOrigin Unit) info st with
  | .ok st' => st'
  | .error _ => st

/-- The phase of a stored scale-out phase. -/
def phaseOf : Option RuntimePhase → Phase
  | none => .idle
  | some (.started _ _) => .started
  | some (.nativeReady _ _) => .nativeReady
  | some (.ready _ _) => .ready
  | some (.commiting _) => .committing
  | some (.committed _ _) => .committed

/-- The block a timed phase waits for. -/
def observeUtil : Option RuntimePhase → Option UInt64
  | some (.started observeUtil _) | some (.nativeReady observeUtil _)
  | some (.ready observeUtil _) => some observeUtil
  | _ => none

/-- The shard a timed phase recorded. -/
def timedShardNum : Option RuntimePhase → Option UInt16
  | some (.started _ shardNum) | some (.nativeReady _ shardNum)
  | some (.ready _ shardNum) => some shardNum
  | _ => none

/-- The countdown the runtime is in: the blocks from the current one to `observe_util`. -/
def abstraction (st : Storage) : Spec :=
  ⟨phaseOf st.currentScaleOutPhase,
    match observeUtil st.currentScaleOutPhase with
    | some observeUtil => observeUtil.toNat - st.blockNumber.toNat
    | none => 0⟩

/-- The timing facts of a state: the observation length is positive, and a timed phase
waits for a block after the current one and at most `k` blocks ahead. -/
def Timing (st : Storage) : Prop :=
  1 ≤ st.scaleOutObserveBlocks.toNat ∧
    ∀ ou, observeUtil st.currentScaleOutPhase = some ou →
      st.blockNumber.toNat < ou.toNat ∧
        ou.toNat ≤ st.blockNumber.toNat + st.scaleOutObserveBlocks.toNat

/-- The next block number, and the end of a window opened at it, fit in a `u64`. -/
def NoOverflow (st : Storage) : Prop :=
  st.blockNumber.toNat + 1 + st.scaleOutObserveBlocks.toNat < 2 ^ 64

/-- One block as one update of the storage. -/
lemma importBlock_eq (st : Storage) (info : ShardInfo) :
    importBlock st info =
      { st with
        blockNumber := st.blockNumber + 1
        currentShardInfo := some info
        currentScaleOutPhase :=
          (Srml.Sharding.nextScaleOutPhase (st.blockNumber + 1) st.scaleOutObserveBlocks info
            info.targetShardNum st.currentScaleOutPhase).getD st.currentScaleOutPhase } := by
  simp only [importBlock, Srml.Sharding.setShardInfo_inherent]

section Arithmetic

variable {st : Storage}

lemma toNat_next (hn : NoOverflow st) : (st.blockNumber + 1).toNat = st.blockNumber.toNat + 1 := by
  unfold NoOverflow at hn
  rw [UInt64.toNat_add, UInt64.toNat_one, Nat.mod_eq_of_lt (by omega)]

lemma toNat_window (hn : NoOverflow st) :
    (st.blockNumber + 1 + st.scaleOutObserveBlocks).toNat =
      st.blockNumber.toNat + 1 + st.scaleOutObserveBlocks.toNat := by
  rw [UInt64.toNat_add, toNat_next hn, Nat.mod_eq_of_lt hn]

/-- The window of a timed phase ends at the next block exactly when one block is left. -/
lemma observeUtil_eq_next_iff (hn : NoOverflow st) (ou : UInt64) :
    ou = st.blockNumber + 1 ↔ ou.toNat = st.blockNumber.toNat + 1 := by
  rw [← toNat_next hn]
  exact ⟨congrArg UInt64.toNat, UInt64.toNat_inj.mp⟩

end Arithmetic

/-! ## The runtime refines the protocol -/

section Block

variable (st : Storage) (info : ShardInfo)

@[simp] lemma importBlock_blockNumber : (importBlock st info).blockNumber = st.blockNumber + 1 := by
  rw [importBlock_eq]

@[simp] lemma importBlock_scaleOutObserveBlocks :
    (importBlock st info).scaleOutObserveBlocks = st.scaleOutObserveBlocks := by
  rw [importBlock_eq]

@[simp] lemma importBlock_currentShardInfo :
    (importBlock st info).currentShardInfo = some info := by
  rw [importBlock_eq]

lemma importBlock_currentScaleOutPhase :
    (importBlock st info).currentScaleOutPhase =
      (Srml.Sharding.nextScaleOutPhase (st.blockNumber + 1) st.scaleOutObserveBlocks info
        info.targetShardNum st.currentScaleOutPhase).getD st.currentScaleOutPhase := by
  rw [importBlock_eq]

end Block

/-- The countdown of a state that waits for `ou`. -/
lemma abstraction_of_observeUtil {st : Storage} {ou : UInt64}
    (h : observeUtil st.currentScaleOutPhase = some ou) :
    abstraction st = ⟨phaseOf st.currentScaleOutPhase, ou.toNat - st.blockNumber.toNat⟩ := by
  simp [abstraction, h]

/-- The countdown of a state in an untimed phase. -/
lemma abstraction_of_not_timed {st : Storage} (h : observeUtil st.currentScaleOutPhase = none) :
    abstraction st = ⟨phaseOf st.currentScaleOutPhase, 0⟩ := by
  simp [abstraction, h]

/-- **One timed block.**  In a timed phase that waits for `ou`, a block whose new phase is
the old one when the window goes on, and the next phase with a window opened at the new
block (or none when the next phase is untimed) when it ends, is a countdown step. -/
lemma refines_timed {st st' : Storage} {ou : UInt64} (ht : Timing st) (hn : NoOverflow st)
    (hobs : observeUtil st.currentScaleOutPhase = some ou)
    (htimed : (phaseOf st.currentScaleOutPhase).IsTimed)
    (hbn : st'.blockNumber = st.blockNumber + 1)
    (hk : st'.scaleOutObserveBlocks = st.scaleOutObserveBlocks)
    (hstay : ou ≠ st.blockNumber + 1 → st'.currentScaleOutPhase = st.currentScaleOutPhase)
    (hmove : ou = st.blockNumber + 1 →
      phaseOf st'.currentScaleOutPhase = (phaseOf st.currentScaleOutPhase).next ∧
        observeUtil st'.currentScaleOutPhase =
          if (phaseOf st.currentScaleOutPhase).next.IsTimed then
            some (st.blockNumber + 1 + st.scaleOutObserveBlocks)
          else none)
    (request : Bool) :
    abstraction st' = (abstraction st).step st.scaleOutObserveBlocks.toNat request ∧
      Timing st' := by
  obtain ⟨hk1, hou⟩ := ht
  obtain ⟨hlo, hhi⟩ := hou ou hobs
  have hnext := toNat_next hn
  rw [abstraction_of_observeUtil hobs]
  by_cases heq : ou = st.blockNumber + 1
  · -- the window ends with this block
    have h1 : ou.toNat - st.blockNumber.toNat = 1 := by
      rw [(observeUtil_eq_next_iff hn ou).mp heq]
      omega
    obtain ⟨hph, hobs'⟩ := hmove heq
    rw [h1, Spec.step_advance _ htimed]
    by_cases hnt : (phaseOf st.currentScaleOutPhase).next.IsTimed
    · rw [if_pos hnt] at hobs'
      refine ⟨?_, by rw [hk]; exact hk1, ?_⟩
      · rw [abstraction_of_observeUtil hobs', hph, if_pos hnt, hbn, toNat_window hn, hnext]
        congr 1
        omega
      · intro ou' h'
        rw [hobs'] at h'
        cases h'
        rw [hbn, hk, toNat_window hn, hnext]
        omega
    · rw [if_neg hnt] at hobs'
      refine ⟨?_, by rw [hk]; exact hk1, ?_⟩
      · rw [abstraction_of_not_timed hobs', hph, if_neg hnt]
      · intro ou' h'
        rw [hobs'] at h'
        cases h'
  · -- the window goes on
    have hne : ou.toNat ≠ st.blockNumber.toNat + 1 :=
      fun h => heq ((observeUtil_eq_next_iff hn ou).mpr h)
    have hph := hstay heq
    rw [Spec.step_countdown _ htimed (by omega)]
    refine ⟨?_, by rw [hk]; exact hk1, ?_⟩
    · rw [abstraction_of_observeUtil (hph ▸ hobs), hph, hbn, hnext, Nat.sub_sub]
    · intro ou' h'
      rw [hph, hobs] at h'
      cases h'
      rw [hbn, hk, hnext]
      omega

/-- An untimed block: the countdown machine and the runtime agree on the next phase. -/
lemma refines_untimed {st st' : Storage} (ht : Timing st)
    (hobs : observeUtil st.currentScaleOutPhase = none)
    (hobs' : observeUtil st'.currentScaleOutPhase = none)
    (hk : st'.scaleOutObserveBlocks = st.scaleOutObserveBlocks) (request : Bool)
    (hstep : (⟨phaseOf st'.currentScaleOutPhase, 0⟩ : Spec) =
      (⟨phaseOf st.currentScaleOutPhase, 0⟩ : Spec).step st.scaleOutObserveBlocks.toNat request) :
    abstraction st' = (abstraction st).step st.scaleOutObserveBlocks.toNat request ∧
      Timing st' := by
  refine ⟨?_, by rw [hk]; exact ht.1, fun ou h => by rw [hobs'] at h; cases h⟩
  rw [abstraction_of_not_timed hobs', abstraction_of_not_timed hobs]
  exact hstep

/-- **Refinement step.**  From a state with its timing facts, a block of the runtime is a
step of the countdown machine, with the block's scale-out request, and keeps the timing
facts. -/
theorem abstraction_importBlock {st : Storage} (ht : Timing st) (hn : NoOverflow st)
    (info : ShardInfo) :
    abstraction (importBlock st info) =
        (abstraction st).step st.scaleOutObserveBlocks.toNat info.scaleOut.isSome ∧
      Timing (importBlock st info) := by
  have hph := importBlock_currentScaleOutPhase st info
  have hbn := importBlock_blockNumber st info
  have hk := importBlock_scaleOutObserveBlocks st info
  cases hp : st.currentScaleOutPhase with
  | none =>
    rw [hp] at hph
    cases hs : info.scaleOut with
    | none =>
      -- no request: the phase stays `None`
      have hnew : (importBlock st info).currentScaleOutPhase = none := by
        simpa [Srml.Sharding.nextScaleOutPhase, hs] using hph
      exact refines_untimed ht (by rw [hp]; rfl) (by rw [hnew]; rfl) hk _
        (by simp [hnew, hp, phaseOf, Spec.step])
    | some so =>
      -- a request opens the window at the new block
      have hnew : (importBlock st info).currentScaleOutPhase =
          some (.started (st.blockNumber + 1 + st.scaleOutObserveBlocks) info.targetShardNum) := by
        simpa [Srml.Sharding.nextScaleOutPhase, hs] using hph
      refine ⟨?_, by rw [hk]; exact ht.1, ?_⟩
      · rw [abstraction_of_observeUtil (by rw [hnew]; rfl), abstraction_of_not_timed (by rw [hp]; rfl),
          hnew, hp, hbn, toNat_window hn, toNat_next hn]
        simp [phaseOf, Spec.step]
      · intro ou h
        rw [hnew] at h
        cases h
        rw [hbn, hk, toNat_window hn, toNat_next hn]
        have := ht.1
        omega
  | some p =>
    rw [hp] at hph
    cases p with
    | started ou sn =>
      refine refines_timed ht hn (by rw [hp]; rfl) (by rw [hp]; trivial) hbn hk
        (fun hne => ?_) (fun heq => ?_) _
      · simpa [hp, Srml.Sharding.nextScaleOutPhase, hne] using hph
      · simp [hph, hp, Srml.Sharding.nextScaleOutPhase, heq, phaseOf, observeUtil, Phase.next,
          Phase.IsTimed]
    | nativeReady ou sn =>
      refine refines_timed ht hn (by rw [hp]; rfl) (by rw [hp]; trivial) hbn hk
        (fun hne => ?_) (fun heq => ?_) _
      · simpa [hp, Srml.Sharding.nextScaleOutPhase, hne] using hph
      · simp [hph, hp, Srml.Sharding.nextScaleOutPhase, heq, phaseOf, observeUtil, Phase.next,
          Phase.IsTimed]
    | ready ou sn =>
      refine refines_timed ht hn (by rw [hp]; rfl) (by rw [hp]; trivial) hbn hk
        (fun hne => ?_) (fun heq => ?_) _
      · simpa [hp, Srml.Sharding.nextScaleOutPhase, hne] using hph
      · simp [hph, hp, Srml.Sharding.nextScaleOutPhase, heq, phaseOf, observeUtil, Phase.next,
          Phase.IsTimed]
    | commiting sc =>
      exact refines_untimed ht (by rw [hp]; rfl) (by simp [hph, Srml.Sharding.nextScaleOutPhase,
        observeUtil]) hk _ (by simp [hph, hp, Srml.Sharding.nextScaleOutPhase, phaseOf, Spec.step])
    | committed sn sc =>
      exact refines_untimed ht (by rw [hp]; rfl) (by simp [hph, Srml.Sharding.nextScaleOutPhase,
        observeUtil]) hk _ (by simp [hph, hp, Srml.Sharding.nextScaleOutPhase, phaseOf, Spec.step])

/-! ## The digests of a block -/

/-- The node's copy of a runtime phase: the same variant with the same fields. -/
def toNode : RuntimePhase → Sharding.ScaleOutPhase UInt64 UInt16
  | .started observeUtil shardNum => .started observeUtil shardNum
  | .nativeReady observeUtil shardNum => .nativeReady observeUtil shardNum
  | .ready observeUtil shardNum => .ready observeUtil shardNum
  | .commiting shardCount => .committing shardCount
  | .committed shardNum shardCount => .committed shardNum shardCount

section Digest

variable {Hash AuthorityId SealSignature : Type}

/-- The runtime's shard marker is the item `sharding_info` writes. -/
lemma depositLog_shardMarker (num count : UInt16) :
    (Srml.Sharding.depositLog (.shardMarker num count : Srml.Sharding.RawLog UInt16 UInt64) :
      DigestItem Hash AuthorityId SealSignature) = Sharding.shardingInfo num count := rfl

/-- The runtime's phase log is the item `scale_out_phase` writes for the node's copy: the two
enums list their variants in the same order. -/
lemma depositLog_scaleOutPhase (p : RuntimePhase) :
    (Srml.Sharding.depositLog (.scaleOutPhase p : Srml.Sharding.RawLog UInt16 UInt64) :
      DigestItem Hash AuthorityId SealSignature) = Sharding.scaleOutPhase (toNode p) := by
  cases p <;> rfl

/-- **The verifier reads the runtime's shard marker** off the digest of `on_finalize`. -/
lemma lastFilterMap_asShardingInfo_onFinalize (st : Storage) :
    lastFilterMap Sharding.asShardingInfo
        (Srml.Sharding.onFinalize st : List (DigestItem Hash AuthorityId SealSignature)) =
      st.currentShardInfo.map fun info => (info.num, info.count) := by
  -- the phase item comes last, but its second byte is not the marker's
  have hphase : ∀ a ∈ (st.currentScaleOutPhase.map fun p =>
      (Srml.Sharding.depositLog (.scaleOutPhase p : Srml.Sharding.RawLog UInt16 UInt64) :
        DigestItem Hash AuthorityId SealSignature)).toList,
      (Sharding.asShardingInfo a : Option (UInt16 × UInt16)) = none := by
    intro a ha
    obtain ⟨p, -, rfl⟩ := Option.mem_map.mp (Option.mem_toList.mp ha)
    simp [Srml.Sharding.depositLog, Sharding.asShardingInfo, Sharding.IsModuleItem,
      Srml.Sharding.RawLog.encode, Sharding.generatedShardingPrefix]
  rw [Srml.Sharding.onFinalize, lastFilterMap_append_of_none _ _ _ hphase]
  cases st.currentShardInfo with
  | none => rfl
  | some info =>
    rw [Option.map_some, Option.toList_some, depositLog_shardMarker,
      ← List.nil_append [Sharding.shardingInfo _ _],
      lastFilterMap_append_of_some _ _ (Sharding.asShardingInfo_shardingInfo _ _ (by simp))]
    rfl

/-- **The verifier reads the runtime's phase** off the digest of `on_finalize`. -/
lemma lastFilterMap_asScaleOutPhase_onFinalize (st : Storage) :
    lastFilterMap Sharding.asScaleOutPhase
        (Srml.Sharding.onFinalize st : List (DigestItem Hash AuthorityId SealSignature)) =
      st.currentScaleOutPhase.map toNode := by
  -- the marker item is not read as a phase
  have hmarker : ∀ a ∈ (st.currentShardInfo.map fun info =>
      (Srml.Sharding.depositLog (.shardMarker info.num info.count : Srml.Sharding.RawLog UInt16 UInt64) :
        DigestItem Hash AuthorityId SealSignature)).toList,
      (Sharding.asScaleOutPhase a : Option (Sharding.ScaleOutPhase UInt64 UInt16)) = none := by
    intro a ha
    obtain ⟨info, -, rfl⟩ := Option.mem_map.mp (Option.mem_toList.mp ha)
    simp [Srml.Sharding.depositLog, Sharding.asScaleOutPhase, Sharding.IsModuleItem,
      Srml.Sharding.RawLog.encode, Sharding.generatedScaleOutPhasePrefix]
  rw [Srml.Sharding.onFinalize]
  cases st.currentScaleOutPhase with
  | none =>
    rw [Option.map_none, Option.toList_none, List.append_nil]
    exact lastFilterMap_eq_none _ _ hmarker
  | some p =>
    rw [Option.map_some, Option.toList_some, depositLog_scaleOutPhase, lastFilterMap_append_of_some _ _
      (Sharding.asScaleOutPhase_scaleOutPhase _ (by cases p <;> simp [encode, toNode]))]
    rfl

end Digest

/-! ## The verifier accepts every block -/

/-- What the verifier needs of a block's shard marker, given the state it continues: a
requested scale-out, and the target a timed phase recorded, are the marker's shard or that
shard plus the count; the block that commits carries the count the phase doubled to, and no
request. -/
def MarkerAgrees (st : Storage) (info : ShardInfo) : Prop :=
  (∀ so, info.scaleOut = some so → so.shardNum = info.num ∨ so.shardNum = info.num + info.count) ∧
  (∀ sn, timedShardNum st.currentScaleOutPhase = some sn →
    sn = info.num ∨ sn = info.num + info.count) ∧
  (∀ sc, st.currentScaleOutPhase = some (.commiting sc) → info.count = sc ∧ info.scaleOut = none)

lemma targetShardNum_of_markerAgrees {st : Storage} {info : ShardInfo} (hm : MarkerAgrees st info) :
    info.targetShardNum = info.num ∨ info.targetShardNum = info.num + info.count := by
  unfold Srml.Sharding.ShardInfo.targetShardNum
  cases hs : info.scaleOut with
  | none => exact .inl rfl
  | some so => exact hm.1 so hs

/-- A window that does not end at the next block ends after it. -/
lemma next_lt_observeUtil {st : Storage} {ou : UInt64} (ht : Timing st) (hn : NoOverflow st)
    (hobs : observeUtil st.currentScaleOutPhase = some ou) (hne : ou ≠ st.blockNumber + 1) :
    st.blockNumber + 1 < ou := by
  have hlo := (ht.2 ou hobs).1
  have hne' : ou.toNat ≠ st.blockNumber.toNat + 1 :=
    fun h => hne ((observeUtil_eq_next_iff hn ou).mpr h)
  rw [UInt64.lt_iff_toNat_lt, toNat_next hn]
  omega

lemma add_self_eq_mul_two (c : UInt16) : c + c = c * 2 := by
  apply UInt16.toNat_inj.mp
  rw [UInt16.toNat_add, UInt16.toNat_mul]
  simp only [UInt16.reduceToNat]
  omega

/-- **Agreement step.**  The verifier's transition relation holds between the phase of a
state and the phase after the next block, at the next block's number and with its shard
marker, when the marker agrees with the state. -/
theorem scaleOutPhaseOk_importBlock {st : Storage} (ht : Timing st) (hn : NoOverflow st)
    {info : ShardInfo} (hm : MarkerAgrees st info) :
    Pow.scaleOutPhaseOk (st.currentScaleOutPhase.map toNode)
      ((importBlock st info).currentScaleOutPhase.map toNode) (st.blockNumber + 1)
      st.scaleOutObserveBlocks info.num info.count = true := by
  have hph := importBlock_currentScaleOutPhase st info
  have hnext := toNat_next hn
  have htarget := targetShardNum_of_markerAgrees hm
  cases hp : st.currentScaleOutPhase with
  | none =>
    rw [hp] at hph
    cases hs : info.scaleOut with
    | none => simp [hph, Srml.Sharding.nextScaleOutPhase, hs, Pow.scaleOutPhaseOk]
    | some so =>
      -- a request opens the window `k` blocks after this one, for the marker's target
      rcases htarget with h | h <;>
        simp [hph, Srml.Sharding.nextScaleOutPhase, hs, Pow.scaleOutPhaseOk, toNode, h]
  | some p =>
    rw [hp] at hph
    cases p with
    | started ou sn =>
      by_cases heq : ou = st.blockNumber + 1
      · -- the window ends: `NativeReady` opens the next one, for the marker's target
        rcases htarget with h | h <;>
          simp [hph, Srml.Sharding.nextScaleOutPhase, heq, Pow.scaleOutPhaseOk, toNode, h]
      · -- the window goes on, with the target recorded when it opened
        have hlt := next_lt_observeUtil ht hn (by rw [hp]; rfl) heq
        rcases hm.2.1 sn (by rw [hp]; rfl) with h | h <;>
          simp [hph, Srml.Sharding.nextScaleOutPhase, heq, Pow.scaleOutPhaseOk, toNode, h, hlt]
    | nativeReady ou sn =>
      by_cases heq : ou = st.blockNumber + 1
      · rcases htarget with h | h <;>
          simp [hph, Srml.Sharding.nextScaleOutPhase, heq, Pow.scaleOutPhaseOk, toNode, h]
      · have hlt := next_lt_observeUtil ht hn (by rw [hp]; rfl) heq
        rcases hm.2.1 sn (by rw [hp]; rfl) with h | h <;>
          simp [hph, Srml.Sharding.nextScaleOutPhase, heq, Pow.scaleOutPhaseOk, toNode, h, hlt]
    | ready ou sn =>
      by_cases heq : ou = st.blockNumber + 1
      · -- `Commiting` doubles the marker's count
        simp [hph, Srml.Sharding.nextScaleOutPhase, heq, Pow.scaleOutPhaseOk, toNode,
          add_self_eq_mul_two]
      · have hlt := next_lt_observeUtil ht hn (by rw [hp]; rfl) heq
        rcases hm.2.1 sn (by rw [hp]; rfl) with h | h <;>
          simp [hph, Srml.Sharding.nextScaleOutPhase, heq, Pow.scaleOutPhaseOk, toNode, h, hlt]
    | commiting sc =>
      obtain ⟨hcount, hs⟩ := hm.2.2 sc hp
      have htn : info.targetShardNum = info.num := by
        simp [Srml.Sharding.ShardInfo.targetShardNum, hs]
      simp [hph, Srml.Sharding.nextScaleOutPhase, Pow.scaleOutPhaseOk, toNode, htn, hcount]
    | committed sn sc =>
      simp [hph, Srml.Sharding.nextScaleOutPhase, Pow.scaleOutPhaseOk, toNode]

/-! ## Where a phase comes from -/

section Origins

variable {st : Storage} {info : ShardInfo}

/-- A timed phase after a block was timed before it, or was opened by the block's request. -/
lemma timed_of_importBlock (h : (phaseOf (importBlock st info).currentScaleOutPhase).IsTimed) :
    (phaseOf st.currentScaleOutPhase).IsTimed ∨
      (st.currentScaleOutPhase = none ∧ info.scaleOut.isSome) := by
  have hph := importBlock_currentScaleOutPhase st info
  cases hp : st.currentScaleOutPhase with
  | none =>
    cases hs : info.scaleOut with
    | none =>
      simp [hph, hp, hs, Srml.Sharding.nextScaleOutPhase, phaseOf, Phase.IsTimed] at h
    | some so => exact .inr ⟨rfl, rfl⟩
  | some p =>
    cases p with
    | started | nativeReady | ready => exact .inl trivial
    | commiting sc | committed sn sc =>
      simp [hph, hp, Srml.Sharding.nextScaleOutPhase, phaseOf, Phase.IsTimed] at h

/-- The target a timed phase records after a block was recorded before it, or is the block's
own target. -/
lemma timedShardNum_of_importBlock {sn : UInt16}
    (h : timedShardNum (importBlock st info).currentScaleOutPhase = some sn) :
    timedShardNum st.currentScaleOutPhase = some sn ∨ sn = info.targetShardNum := by
  have hph := importBlock_currentScaleOutPhase st info
  cases hp : st.currentScaleOutPhase with
  | none =>
    right
    cases hs : info.scaleOut <;>
      simp_all [Srml.Sharding.nextScaleOutPhase, timedShardNum]
  | some p =>
    rw [hp] at hph
    cases p with
    | started ou sn' | nativeReady ou sn' | ready ou sn' =>
      by_cases heq : ou = st.blockNumber + 1
      · simp_all [Srml.Sharding.nextScaleOutPhase, timedShardNum]
      · simp_all [Srml.Sharding.nextScaleOutPhase, timedShardNum]
    | commiting sc | committed sn' sc =>
      simp_all [Srml.Sharding.nextScaleOutPhase, timedShardNum]

/-- `Commiting` after a block was opened by it, from `Ready`, with the block's count doubled. -/
lemma commiting_of_importBlock {sc : UInt16}
    (h : (importBlock st info).currentScaleOutPhase = some (.commiting sc)) :
    (phaseOf st.currentScaleOutPhase).IsTimed ∧ sc = info.count + info.count := by
  have hph := importBlock_currentScaleOutPhase st info
  cases hp : st.currentScaleOutPhase with
  | none =>
    cases hs : info.scaleOut <;> simp_all [Srml.Sharding.nextScaleOutPhase]
  | some p =>
    rw [hp] at hph
    cases p with
    | started ou sn | nativeReady ou sn | ready ou sn =>
      by_cases heq : ou = st.blockNumber + 1
      · simp_all [Srml.Sharding.nextScaleOutPhase, phaseOf, Phase.IsTimed]
      · simp_all [Srml.Sharding.nextScaleOutPhase]
    | commiting sc' | committed sn sc' =>
      simp_all [Srml.Sharding.nextScaleOutPhase]

end Origins

/-! ## Whole runs -/

/-- The state is in `Commiting`. -/
def IsCommiting (st : Storage) : Prop := phaseOf st.currentScaleOutPhase = .committing

instance (st : Storage) : Decidable (IsCommiting st) :=
  inferInstanceAs (Decidable (phaseOf st.currentScaleOutPhase = .committing))

/-- The shard info of a block before the scale-out commits: shard `num` of `count`, asking
to scale out to `num` or `num + count`, or not at all. -/
def PreInfo (num count : UInt16) (info : ShardInfo) : Prop :=
  info.num = num ∧ info.count = count ∧
    ∀ so ∈ info.scaleOut, so.shardNum = num ∨ so.shardNum = num + count

instance (num count : UInt16) (info : ShardInfo) : Decidable (PreInfo num count info) :=
  inferInstanceAs (Decidable (info.num = num ∧ info.count = count ∧
    ∀ so ∈ info.scaleOut, so.shardNum = num ∨ so.shardNum = num + count))

/-- The environment of a run over its first `L` blocks.  Block `n + 1` is built on the state
after `n` blocks with the shard info `infos n`; it is the block that commits the scale-out,
or a later one, when some state up to the `n`-th was `Commiting`.  Before that block the node
provides a `PreInfo`; from it on, `(target, 2 * count)` with no request. -/
def Environment (num count target : UInt16) (init : Storage) (infos : ℕ → ShardInfo)
    (L : ℕ) : Prop :=
  ∀ n < L,
    ((∃ m ≤ n, IsCommiting (run importBlock init infos m)) →
      infos n = ⟨target, 2 * count, none⟩) ∧
    ((¬ ∃ m ≤ n, IsCommiting (run importBlock init infos m)) → PreInfo num count (infos n))

instance (num count target : UInt16) (init : Storage) (infos : ℕ → ShardInfo) (L : ℕ) :
    Decidable (Environment num count target init infos L) :=
  inferInstanceAs (Decidable (∀ n < L,
    ((∃ m ≤ n, IsCommiting (run importBlock init infos m)) → infos n = ⟨target, 2 * count, none⟩) ∧
    ((¬ ∃ m ≤ n, IsCommiting (run importBlock init infos m)) → PreInfo num count (infos n))))

lemma two_mul_eq_add_self (c : UInt16) : 2 * c = c + c := by
  rw [add_self_eq_mul_two]
  apply UInt16.toNat_inj.mp
  rw [UInt16.toNat_mul, UInt16.toNat_mul, Nat.mul_comm]

lemma timed_of_timedShardNum {p : Option RuntimePhase} {sn : UInt16}
    (h : timedShardNum p = some sn) : (phaseOf p).IsTimed := by
  match p, h with
  | some (.started _ _), _ | some (.nativeReady _ _), _ | some (.ready _ _), _ => trivial

lemma targetShardNum_of_preInfo {num count : UInt16} {info : ShardInfo}
    (h : PreInfo num count info) :
    info.targetShardNum = num ∨ info.targetShardNum = num + count := by
  obtain ⟨hnum, -, hso⟩ := h
  unfold Srml.Sharding.ShardInfo.targetShardNum
  cases hs : info.scaleOut with
  | none => exact .inl hnum
  | some so => exact hso so hs

section Run

variable {num count target : UInt16} {init : Storage} {infos : ℕ → ShardInfo} {L : ℕ}

/-- What holds after `n` blocks of a run: the observation length is the initial one; while
block numbers and windows fit in a `u64`, the block number counts the blocks and the timing
facts hold; recorded targets are `num` or `num + count`; `Commiting` carries `2 * count`;
and no state before a timed one was `Commiting`. -/
def RunInv (num count : UInt16) (init : Storage) (infos : ℕ → ShardInfo) (n : ℕ)
    (st : Storage) : Prop :=
  st.scaleOutObserveBlocks = init.scaleOutObserveBlocks ∧
  (init.blockNumber.toNat + n + init.scaleOutObserveBlocks.toNat < 2 ^ 64 →
    st.blockNumber.toNat = init.blockNumber.toNat + n ∧ Timing st) ∧
  (∀ sn, timedShardNum st.currentScaleOutPhase = some sn → sn = num ∨ sn = num + count) ∧
  (∀ sc, st.currentScaleOutPhase = some (.commiting sc) → sc = 2 * count) ∧
  ((phaseOf st.currentScaleOutPhase).IsTimed →
    ¬ ∃ m ≤ n, IsCommiting (run importBlock init infos m))

lemma runInv_zero (hinit : init.currentScaleOutPhase = none)
    (hk : 1 ≤ init.scaleOutObserveBlocks.toNat) : RunInv num count init infos 0 init := by
  refine ⟨rfl, fun _ => ⟨by simp, hk, ?_⟩, ?_, ?_, ?_⟩ <;>
    simp [hinit, observeUtil, timedShardNum, phaseOf, Phase.IsTimed]

/-- **The invariant step.**  A block fed by the environment keeps the run invariant. -/
lemma runInv_succ (henv : Environment num count target init infos L) {n : ℕ} (hn : n < L)
    (hinv : RunInv num count init infos n (run importBlock init infos n)) :
    RunInv num count init infos (n + 1) (run importBlock init infos (n + 1)) := by
  set st := run importBlock init infos n
  obtain ⟨hk, hbound, htargets, hcommit, hfresh⟩ := hinv
  obtain ⟨hpost, hpre⟩ := henv n hn
  -- a block that opens a window, or continues one, comes before the commit
  have hpre_of_request : (infos n).scaleOut.isSome → PreInfo num count (infos n) := by
    intro hreq
    refine hpre fun hc => ?_
    rw [hpost hc] at hreq
    simp at hreq
  have hpre_of_timed : (phaseOf st.currentScaleOutPhase).IsTimed → PreInfo num count (infos n) :=
    fun ht => hpre (hfresh ht)
  rw [run_succ]
  refine ⟨?_, ?_, ?_, ?_, ?_⟩
  · rw [importBlock_scaleOutObserveBlocks, hk]
  · intro hb
    obtain ⟨hbn, htime⟩ := hbound (by omega)
    have hno : NoOverflow st := by
      unfold NoOverflow
      rw [hbn, hk]
      omega
    refine ⟨?_, (abstraction_importBlock htime hno (infos n)).2⟩
    rw [importBlock_blockNumber, toNat_next hno, hbn, Nat.add_assoc]
  · intro sn hsn
    rcases timedShardNum_of_importBlock hsn with h | h
    · exact htargets sn h
    · -- a new target is the block's own, and the block comes before the commit
      have hp : PreInfo num count (infos n) := by
        rcases timed_of_importBlock (timed_of_timedShardNum hsn) with ht | ⟨-, hreq⟩
        · exact hpre_of_timed ht
        · exact hpre_of_request hreq
      rw [h]
      exact targetShardNum_of_preInfo hp
  · intro sc hsc
    obtain ⟨ht, rfl⟩ := commiting_of_importBlock hsc
    obtain ⟨-, hcount, -⟩ := hpre_of_timed ht
    rw [hcount, two_mul_eq_add_self]
  · intro hnew ⟨m, hm, hcm⟩
    rcases Nat.lt_or_eq_of_le hm with hlt | rfl
    · -- an earlier commit would have ended every window and every request
      rcases timed_of_importBlock hnew with ht | ⟨-, hreq⟩
      · exact hfresh ht ⟨m, by omega, hcm⟩
      · rw [hpost ⟨m, by omega, hcm⟩] at hreq
        simp at hreq
    · -- the new state is timed, so not `Commiting`
      unfold IsCommiting at hcm
      rw [run_succ] at hcm
      rw [hcm] at hnew
      exact hnew

/-- The invariant holds along the run, as far as the environment goes. -/
lemma runInv_run (henv : Environment num count target init infos L)
    (hinit : init.currentScaleOutPhase = none) (hk : 1 ≤ init.scaleOutObserveBlocks.toNat) :
    ∀ n ≤ L, RunInv num count init infos n (run importBlock init infos n) := by
  intro n
  induction n with
  | zero => exact fun _ => runInv_zero hinit hk
  | succ n ih => exact fun hn => runInv_succ henv (by omega) (ih (by omega))

/-- The block fed at step `n` agrees with the state it continues. -/
lemma markerAgrees_of_runInv (henv : Environment num count target init infos L) {n : ℕ}
    (hn : n < L) (hinv : RunInv num count init infos n (run importBlock init infos n)) :
    MarkerAgrees (run importBlock init infos n) (infos n) := by
  obtain ⟨-, -, htargets, hcommit, hfresh⟩ := hinv
  obtain ⟨hpost, hpre⟩ := henv n hn
  refine ⟨fun so hso => ?_, fun sn hsn => ?_, fun sc hsc => ?_⟩
  · by_cases hc : ∃ m ≤ n, IsCommiting (run importBlock init infos m)
    · rw [hpost hc] at hso
      cases hso
    · obtain ⟨hnum, hcount, hso'⟩ := hpre hc
      rw [hnum, hcount]
      exact hso' so hso
  · -- a timed state comes before the commit, so the block carries the old marker
    obtain ⟨hnum, hcount, -⟩ := hpre (hfresh (timed_of_timedShardNum hsn))
    rw [hnum, hcount]
    exact htargets sn hsn
  · have hc : ∃ m ≤ n, IsCommiting (run importBlock init infos m) :=
      ⟨n, le_rfl, by unfold IsCommiting; rw [hsc]; rfl⟩
    rw [hpost hc, hcommit sc hsc]
    exact ⟨rfl, rfl⟩

end Run

/-! ## The agreement over a run -/

section Agreement

variable {num count target : UInt16} {init : Storage} {infos : ℕ → ShardInfo} {L : ℕ}

/-- Before the horizon, a state of the run has the initial observation length, its timing
facts and room for one more block. -/
lemma timing_run (henv : Environment num count target init infos L)
    (hinit : init.currentScaleOutPhase = none) (hk : 1 ≤ init.scaleOutObserveBlocks.toNat)
    (hL : init.blockNumber.toNat + L + init.scaleOutObserveBlocks.toNat < 2 ^ 64) {n : ℕ}
    (hn : n < L) :
    (run importBlock init infos n).scaleOutObserveBlocks = init.scaleOutObserveBlocks ∧
      Timing (run importBlock init infos n) ∧ NoOverflow (run importBlock init infos n) := by
  obtain ⟨hobs, hbound, -⟩ := runInv_run henv hinit hk n hn.le
  obtain ⟨hbn, ht⟩ := hbound (by omega)
  refine ⟨hobs, ht, ?_⟩
  unfold NoOverflow
  rw [hbn, hobs]
  omega

/-- Before the horizon, a block of the run is a step of the countdown machine. -/
lemma abstraction_run_succ (henv : Environment num count target init infos L)
    (hinit : init.currentScaleOutPhase = none) (hk : 1 ≤ init.scaleOutObserveBlocks.toNat)
    (hL : init.blockNumber.toNat + L + init.scaleOutObserveBlocks.toNat < 2 ^ 64) {n : ℕ}
    (hn : n < L) :
    abstraction (run importBlock init infos (n + 1)) =
      (abstraction (run importBlock init infos n)).step init.scaleOutObserveBlocks.toNat
        (infos n).scaleOut.isSome := by
  obtain ⟨hobs, ht, hno⟩ := timing_run henv hinit hk hL hn
  rw [run_succ, (abstraction_importBlock ht hno _).1, hobs]

end Agreement

/-- **Scale-out phase agreement.**  Run the runtime from a state with no scale-out phase, with
observation length `k ≥ 1`, for `L` blocks whose numbers plus `k` stay below `2 ^ 64`, fed by
the environment: shard info `(num, count)` with scale-out targets in `{num, num + count}`
before the block that commits, `(target, 2 * count)` with no scale-out from it on.  Then

* the verifier accepts every block: the child's marker is its shard info, and the parent's
  and child's phase digests pass `scaleOutPhaseOk` with it;
* each block keeps the phase or moves to the next one of the cycle;
* a timed phase entered at block `m + 1` lasts exactly `k` blocks and then moves on. -/
theorem scale_out_phase_agreement {Hash AuthorityId SealSignature : Type} (init : Storage)
    (hinit : init.currentScaleOutPhase = none) (hk : 1 ≤ init.scaleOutObserveBlocks.toNat)
    (num count target : UInt16) (infos : ℕ → ShardInfo) (L : ℕ)
    (henv : Environment num count target init infos L)
    (hL : init.blockNumber.toNat + L + init.scaleOutObserveBlocks.toNat < 2 ^ 64) :
    (∀ n < L,
      lastFilterMap Sharding.asShardingInfo
          (Srml.Sharding.onFinalize (run importBlock init infos (n + 1)) :
            List (DigestItem Hash AuthorityId SealSignature)) =
        some ((infos n).num, (infos n).count) ∧
      Pow.scaleOutPhaseOk
        (lastFilterMap Sharding.asScaleOutPhase
          (Srml.Sharding.onFinalize (run importBlock init infos n) :
            List (DigestItem Hash AuthorityId SealSignature)))
        (lastFilterMap Sharding.asScaleOutPhase
          (Srml.Sharding.onFinalize (run importBlock init infos (n + 1)) :
            List (DigestItem Hash AuthorityId SealSignature)))
        (run importBlock init infos (n + 1)).blockNumber init.scaleOutObserveBlocks
        (infos n).num (infos n).count = true) ∧
    (∀ n < L,
      phaseOf (run importBlock init infos (n + 1)).currentScaleOutPhase =
          phaseOf (run importBlock init infos n).currentScaleOutPhase ∨
        phaseOf (run importBlock init infos (n + 1)).currentScaleOutPhase =
          (phaseOf (run importBlock init infos n).currentScaleOutPhase).next) ∧
    (∀ m, m + 1 + init.scaleOutObserveBlocks.toNat ≤ L →
      (phaseOf (run importBlock init infos (m + 1)).currentScaleOutPhase).IsTimed →
      phaseOf (run importBlock init infos (m + 1)).currentScaleOutPhase ≠
        phaseOf (run importBlock init infos m).currentScaleOutPhase →
      (∀ j < init.scaleOutObserveBlocks.toNat,
        phaseOf (run importBlock init infos (m + 1 + j)).currentScaleOutPhase =
          phaseOf (run importBlock init infos (m + 1)).currentScaleOutPhase) ∧
      phaseOf (run importBlock init infos (m + 1 + init.scaleOutObserveBlocks.toNat)).currentScaleOutPhase =
        (phaseOf (run importBlock init infos (m + 1)).currentScaleOutPhase).next) := by
  set k := init.scaleOutObserveBlocks.toNat
  have hstep := fun n (hn : n < L) => abstraction_run_succ henv hinit hk hL hn
  refine ⟨fun n hn => ?_, fun n hn => ?_, fun m hm htimed hne => ?_⟩
  · -- the verifier's check, from the step lemma at the state the block continues
    obtain ⟨hobs, ht, hno⟩ := timing_run henv hinit hk hL hn
    have hmarker := markerAgrees_of_runInv henv hn (runInv_run henv hinit hk n hn.le)
    rw [lastFilterMap_asShardingInfo_onFinalize, lastFilterMap_asScaleOutPhase_onFinalize,
      lastFilterMap_asScaleOutPhase_onFinalize, run_succ, importBlock_currentShardInfo,
      importBlock_blockNumber, ← hobs]
    exact ⟨rfl, scaleOutPhaseOk_importBlock ht hno hmarker⟩
  · -- the phases are those of the countdown machine
    have h := Spec.step_phase k (abstraction (run importBlock init infos n)) (infos n).scaleOut.isSome
    rw [← hstep n hn] at h
    exact h
  · -- the window opened at block `m + 1` is a full one, and the countdown runs it out
    set p := phaseOf (run importBlock init infos (m + 1)).currentScaleOutPhase
    have hfull : abstraction (run importBlock init infos (m + 1)) = ⟨p, k⟩ := by
      have hleft := Spec.step_enter k (abstraction (run importBlock init infos m))
        (infos m).scaleOut.isSome
      rw [← hstep m (by omega)] at hleft
      exact congrArg₂ Spec.mk rfl (hleft hne htimed)
    have hsim := run_simulates importBlock init infos abstraction (Spec.step k)
      (fun n => (infos n).scaleOut.isSome) (m + 1) k (fun j hj => hstep (m + 1 + j) (by omega))
    rw [hfull] at hsim
    refine ⟨fun j hj => ?_, ?_⟩
    · have h := hsim j hj.le
      rw [Spec.run_countdown k htimed _ hj] at h
      exact congrArg Spec.phase h
    · have h := hsim k le_rfl
      rw [Spec.run_advance k htimed _ hk] at h
      exact congrArg Spec.phase h

/-- A whole scale-out with one-block windows: the verifier accepts the block that commits. -/
theorem scale_out_phase_agreement_commit_block :
    let init : Storage := ⟨0, 1, none, none⟩
    let infos : ℕ → ShardInfo := fun n => if n < 4 then ⟨0, 1, some ⟨1⟩⟩ else ⟨1, 2, none⟩
    Environment 0 1 1 init infos 6 ∧
      Pow.scaleOutPhaseOk
        (lastFilterMap Sharding.asScaleOutPhase
          (Srml.Sharding.onFinalize (run importBlock init infos 4) : List (DigestItem Unit Unit Unit)))
        (lastFilterMap Sharding.asScaleOutPhase
          (Srml.Sharding.onFinalize (run importBlock init infos 5) : List (DigestItem Unit Unit Unit)))
        (run importBlock init infos 5).blockNumber 1 1 2 = true := by
  intro init infos
  have henv : Environment 0 1 1 init infos 6 := by decide
  exact ⟨henv,
    ((scale_out_phase_agreement init rfl (by decide) 0 1 1 infos 6 henv (by decide)).1 4
      (by decide)).2⟩

/-- Without the bound on block numbers the agreement fails: with `k = 2 ^ 64 - 1` the window
opened at block 1 ends at block `0`, and the verifier rejects block 2, which the runtime
keeps in `Started`. -/
theorem scale_out_phase_agreement_fails_past_u64 :
    let init : Storage := ⟨0, 18446744073709551615, none, none⟩
    let infos : ℕ → ShardInfo := fun n => if n = 0 then ⟨0, 1, some ⟨1⟩⟩ else ⟨0, 1, none⟩
    init.currentScaleOutPhase = none ∧ 1 ≤ init.scaleOutObserveBlocks.toNat ∧
      Environment 0 1 1 init infos 2 ∧
      Pow.scaleOutPhaseOk
        (lastFilterMap Sharding.asScaleOutPhase
          (Srml.Sharding.onFinalize (run importBlock init infos 1) : List (DigestItem Unit Unit Unit)))
        (lastFilterMap Sharding.asScaleOutPhase
          (Srml.Sharding.onFinalize (run importBlock init infos 2) : List (DigestItem Unit Unit Unit)))
        (run importBlock init infos 2).blockNumber init.scaleOutObserveBlocks
        (infos 1).num (infos 1).count = false := by
  intro init infos
  refine ⟨rfl, by decide, by decide, ?_⟩
  rw [lastFilterMap_asScaleOutPhase_onFinalize, lastFilterMap_asScaleOutPhase_onFinalize]
  decide

end ScaleOut
end Yeeroot
import Yeeroot.Codec.Scale

/-!
# Shard assignment (`core/sharding/primitives/src/utils.rs`)

Every account, transfer destination and coinbase of YeeChain is placed on a shard by the
last two bytes of its encoding: `shard_num_for_bytes` reads them as a big-endian `u16` and
keeps its low `digits` bits, where `digits` is the base-two logarithm of the shard count.
`get_digits` refuses a count that is not a power of two, by computing `log2` with a
shift-counting loop and comparing `pow2` of the result with the count.

The verifier undoes one or more scale-outs with `get_original_shard_num`
(`core/consensus/pow/src/verifier.rs`): it halves the count and folds the upper half of the
shard numbers onto the lower half until the older count is reached.  The function is placed
here, beside the assignment it inverts, because the two are only meaningful together.

The model keeps the source's `u16` arithmetic as `UInt16` and its loops as recursive
functions with the loop state as arguments.  Each function gets one specification lemma over
`toNat`:

* `log2_toNat`: `log2` is `Nat.log2` on every non-zero count;
* `getDigits_eq`: `get_digits` succeeds exactly on the counts `2 ^ d` with `d < 16`
  (`IsShardCount`);
* `shardNumForBytes_toNat`: the shard of a byte string is its trailing big-endian `u16`
  modulo the count;
* `getOriginalShardNumLoop_eq`: the halving loop computes the same residue modulo the older
  count.

The main result `shard_num_for_bytes_scale_consistent` assembles them: the shard of a byte
string at a larger count determines its shard at every smaller count, through
`get_original_shard_num`, and a count that is larger is refused.
-/

namespace Yeeroot
namespace Sharding

/-! ## The source functions -/

/-- The loop of `log2`: `while s > 0 { s = s >> 1; i = i + 1; }`, run from `(s, i)`. -/
def log2Loop (s i : UInt16) : UInt16 :=
  if s > 0 then log2Loop (s >>> 1) (i + 1) else i
termination_by s.toNat
decreasing_by
  simp only [UInt16.lt_iff_toNat_lt, UInt16.toNat_zero] at *
  rw [UInt16.toNat_shiftRight]
  simp
  omega

/-- `log2`: the number of right shifts that clear `n`, less one.  On `0` the subtraction
wraps; `get_digits` never calls it there. -/
def log2 (n : UInt16) : UInt16 := log2Loop n 0 - 1

/-- `pow2`: `1u16 << n`. -/
def pow2 (n : UInt16) : UInt16 := 1 <<< n

/-- `get_digits`: the base-two logarithm of a shard count, when the count is a power of two. -/
def getDigits (shardCount : UInt16) : Option UInt16 :=
  if shardCount = 0 then none
  else
    let digits := log2 shardCount
    if pow2 digits = shardCount then some digits else none

/-- `u16::from_be_bytes([hi, lo])`. -/
def u16FromBeBytes (hi lo : UInt8) : UInt16 := hi.toUInt16 <<< 8 ||| lo.toUInt16

/-- `shard_num_for_bytes`: the low `digits` bits of the trailing big-endian `u16`. -/
def shardNumForBytes (bytes : List UInt8) (shardCount : UInt16) : Option UInt16 :=
  if h : bytes.length < 2 then none
  else
    (getDigits shardCount).map fun digits =>
      let a := u16FromBeBytes bytes[bytes.length - 2] bytes[bytes.length - 1]
      let mask := ~~~((~~~(0 : UInt16)) <<< digits)
      a &&& mask

/-- `shard_num_for`: the shard of a value is that of its encoding. -/
def shardNumFor {T : Type} [Scale.Codec T] (t : T) (shardCount : UInt16) : Option UInt16 :=
  shardNumForBytes (Scale.encode t) shardCount

/-- `ScaleOut` of the sharding primitives: the shard a node scales out to. -/
structure ScaleOut where
  shardNum : UInt16
deriving DecidableEq

/-- The loop of `get_original_shard_num`: while the count exceeds the original one, halve it
and fold a shard number of the upper half onto the lower half. -/
def getOriginalShardNumLoop (shardNum shardCount originalShardCount : UInt16) :
    UInt16 × UInt16 :=
  if shardCount > originalShardCount then
    let shardCount' := shardCount / 2
    let shardNum' := if shardNum ≥ shardCount' then shardNum - shardCount' else shardNum
    getOriginalShardNumLoop shardNum' shardCount' originalShardCount
  else (shardNum, shardCount)
termination_by shardCount.toNat
decreasing_by
  simp only [UInt16.lt_iff_toNat_lt, UInt16.toNat_div] at *
  simp
  omega

/-- `get_original_shard_num` (`verifier.rs`): the shard number a node of count
`shardCount` had when the count was `originalShardCount`. -/
def getOriginalShardNum (shardNum shardCount originalShardCount : UInt16) :
    Except String UInt16 :=
  let (shardNum, shardCount) := getOriginalShardNumLoop shardNum shardCount originalShardCount
  if shardCount ≠ originalShardCount then .error "Invalid header shard info"
  else .ok shardNum

/-! ## Shard counts -/

/-- A count `get_digits` accepts: a power of two that a `u16` holds. -/
def IsShardCount (c : UInt16) : Prop := ∃ d < 16, c.toNat = 2 ^ d

instance (c : UInt16) : Decidable (IsShardCount c) :=
  decidable_of_iff (∃ d : Fin 16, c.toNat = 2 ^ (d : ℕ))
    ⟨fun ⟨d, h⟩ => ⟨d, d.isLt, h⟩, fun ⟨d, hd, h⟩ => ⟨⟨d, hd⟩, h⟩⟩

lemma IsShardCount.ne_zero {c : UInt16} (hc : IsShardCount c) : c.toNat ≠ 0 := by
  obtain ⟨d, -, hd⟩ := hc
  rw [hd]
  exact (Nat.two_pow_pos d).ne'

/-- Two shard counts, the smaller divides the larger. -/
lemma IsShardCount.dvd {c c' : UInt16} (hc : IsShardCount c) (hc' : IsShardCount c')
    (hle : c' ≤ c) : c'.toNat ∣ c.toNat := by
  obtain ⟨d, -, hd⟩ := hc
  obtain ⟨d', -, hd'⟩ := hc'
  have hle' : 2 ^ d' ≤ 2 ^ d := by
    rw [← hd, ← hd']
    exact UInt16.le_iff_toNat_le.mp hle
  rw [hd, hd']
  exact Nat.pow_dvd_pow 2 ((Nat.pow_le_pow_iff_right Nat.one_lt_two).mp hle')

/-! ## Specification lemmas -/

lemma log2Loop_zero (i : UInt16) : log2Loop 0 i = i := by
  rw [log2Loop]
  simp

lemma toNat_shiftRight_one (s : UInt16) : (s >>> 1).toNat = s.toNat / 2 := by
  rw [UInt16.toNat_shiftRight]
  simp [Nat.shiftRight_eq_div_pow]

/-- The shift loop counts one more than `Nat.log2`, modulo the word. -/
lemma log2Loop_toNat (s i : UInt16) (hs : s ≠ 0) :
    (log2Loop s i).toNat = (i.toNat + Nat.log2 s.toNat + 1) % 2 ^ 16 := by
  fun_induction log2Loop s i with
  | case1 s i hpos ih =>
    have hhalf := toNat_shiftRight_one s
    have hi : (i + 1).toNat = (i.toNat + 1) % 2 ^ 16 := by simp [UInt16.toNat_add]
    by_cases hone : s >>> 1 = 0
    · -- the last iteration: `s` was `1`, whose logarithm is `0`
      rw [hone, log2Loop_zero, hi]
      have hs1 : s.toNat = 1 := by
        have h0 := congrArg UInt16.toNat hone
        simp only [hhalf, UInt16.toNat_zero] at h0
        have : s.toNat ≠ 0 := by simpa [← UInt16.toNat_inj] using hs
        omega
      rw [hs1, show Nat.log2 1 = 0 from rfl]
    · rw [ih hone, hi, hhalf]
      have h2 : 2 ≤ s.toNat := by
        have : (s >>> 1).toNat ≠ 0 := by simpa [← UInt16.toNat_inj] using hone
        omega
      rw [Nat.log2_def s.toNat, if_pos h2]
      omega
  | case2 s i hpos =>
    have hpos' : ¬ 0 < s.toNat := by simpa [UInt16.lt_iff_toNat_lt] using hpos
    have hs' : s.toNat ≠ 0 := by simpa [← UInt16.toNat_inj] using hs
    omega

/-- **`log2` is the logarithm.**  On a non-zero `u16`, the shift loop less one is
`Nat.log2`; the count stays below the word, so nothing wraps. -/
lemma log2_toNat (n : UInt16) (hn : n ≠ 0) : (log2 n).toNat = Nat.log2 n.toNat := by
  have hlt : Nat.log2 n.toNat < 16 := by
    have : n.toNat ≠ 0 := by simpa [← UInt16.toNat_inj] using hn
    exact (Nat.log2_lt this).mpr n.toNat_lt
  have hloop := log2Loop_toNat n 0 hn
  rw [UInt16.toNat_zero, Nat.zero_add, Nat.mod_eq_of_lt (by omega)] at hloop
  rw [log2, UInt16.toNat_sub_of_le _ _ (by rw [UInt16.le_iff_toNat_le, hloop]; simp), hloop]
  simp

lemma pow2_toNat (d : UInt16) (hd : d.toNat < 16) : (pow2 d).toNat = 2 ^ d.toNat := by
  rw [pow2, UInt16.toNat_shiftLeft, Nat.mod_eq_of_lt hd]
  simp [Nat.one_shiftLeft]
  exact Nat.pow_lt_pow_right Nat.one_lt_two hd

/-- `!(!0 << d)` keeps the low `d` bits. -/
lemma mask_toNat (a d : UInt16) (hd : d.toNat < 16) :
    (a &&& ~~~((~~~(0 : UInt16)) <<< d)).toNat = a.toNat % 2 ^ d.toNat := by
  -- sixteen shift amounts, each a closed computation on `u16`
  have hmask : ∀ e : Fin 16,
      (~~~((~~~(0 : UInt16)) <<< UInt16.ofNat e)).toNat = 2 ^ (e : ℕ) - 1 := by
    decide
  have hd' : d = UInt16.ofNat (⟨d.toNat, hd⟩ : Fin 16) := by simp
  rw [UInt16.toNat_and, hd', hmask ⟨d.toNat, hd⟩, Nat.and_two_pow_sub_one_eq_mod]
  simp

lemma u16FromBeBytes_toNat (hi lo : UInt8) :
    (u16FromBeBytes hi lo).toNat = hi.toNat * 256 + lo.toNat := by
  have hlo := lo.toNat_lt
  have hhi := hi.toNat_lt
  rw [u16FromBeBytes, UInt16.toNat_or, UInt16.toNat_shiftLeft]
  simp only [UInt8.toNat_toUInt16]
  have hshift : hi.toNat <<< ((8 : UInt16).toNat % 16) % 2 ^ 16 = hi.toNat <<< 8 := by
    rw [show (8 : UInt16).toNat % 16 = 8 from rfl, Nat.shiftLeft_eq]
    omega
  rw [hshift, ← Nat.shiftLeft_add_eq_or_of_lt (by omega : lo.toNat < 2 ^ 8), Nat.shiftLeft_eq]

/-- **`get_digits` accepts exactly the shard counts**, and returns their logarithm. -/
lemma getDigits_eq (c : UInt16) :
    getDigits c = if IsShardCount c then some (log2 c) else none := by
  by_cases hc : c = 0
  · have hnot : ¬ IsShardCount c := fun h => h.ne_zero (by simp [hc])
    rw [if_neg hnot]
    subst hc
    simp [getDigits]
  have hlog := log2_toNat c hc
  have hlt : (log2 c).toNat < 16 := by
    have : c.toNat ≠ 0 := by simpa [← UInt16.toNat_inj] using hc
    rw [hlog]
    exact (Nat.log2_lt this).mpr c.toNat_lt
  have hiff : pow2 (log2 c) = c ↔ IsShardCount c := by
    rw [← UInt16.toNat_inj, pow2_toNat _ hlt, hlog]
    constructor
    · intro h
      exact ⟨_, by omega, h.symm⟩
    · rintro ⟨d, -, hd⟩
      rw [hd, Nat.log2_two_pow]
  simp only [getDigits, hc, if_false]
  by_cases hs : IsShardCount c
  · simp [hs, hiff.mpr hs]
  · simp [hs, mt hiff.mp hs]

/-- The big-endian `u16` of the last two bytes, as a number. -/
def trailingValue (bytes : List UInt8) : ℕ :=
  match bytes.reverse with
  | lo :: hi :: _ => hi.toNat * 256 + lo.toNat
  | _ => 0

/-- **The shard of a byte string** is its trailing value modulo the count, on every shard
count, and there is none on any other count. -/
lemma shardNumForBytes_toNat (bytes : List UInt8) (hb : 2 ≤ bytes.length) (c : UInt16) :
    (shardNumForBytes bytes c).map UInt16.toNat =
      if IsShardCount c then some (trailingValue bytes % c.toNat) else none := by
  have hlen : ¬ bytes.length < 2 := by omega
  -- the two indexed bytes are the first two of the reversed list
  have htrail : (u16FromBeBytes bytes[bytes.length - 2] bytes[bytes.length - 1]).toNat =
      trailingValue bytes := by
    rw [u16FromBeBytes_toNat]
    obtain ⟨init, hi, lo, rfl⟩ : ∃ init hi lo, bytes = init ++ [hi, lo] := by
      refine ⟨bytes.take (bytes.length - 2), bytes[bytes.length - 2],
        bytes[bytes.length - 1], ?_⟩
      apply List.ext_getElem
      · simp
        omega
      · intro n h1 h2
        simp only [List.getElem_append, List.length_take]
        grind
    simp [trailingValue]
  simp only [shardNumForBytes, hlen, dite_false, getDigits_eq]
  by_cases hc : IsShardCount c
  · have hc0 : c ≠ 0 := fun h => hc.ne_zero (by simp [h])
    have hlt : (log2 c).toNat < 16 := by
      rw [log2_toNat c hc0]
      exact (Nat.log2_lt hc.ne_zero).mpr c.toNat_lt
    obtain ⟨d, -, hd⟩ := id hc
    rw [if_pos hc, if_pos hc]
    simp only [Option.map_some, mask_toNat _ _ hlt, htrail, log2_toNat c hc0, hd,
      Nat.log2_two_pow]
  · simp [hc]


/-- Folding the upper half onto the lower half of `[0, 2 ^ (j + 1))` is the residue modulo
`2 ^ j`. -/
lemma fold_half_toNat (num half : UInt16) (j : ℕ) (hhalf : half.toNat = 2 ^ j)
    (hnum : num.toNat < 2 ^ (j + 1)) :
    (if num ≥ half then num - half else num).toNat = num.toNat % 2 ^ j := by
  split_ifs with h
  · have hle : half.toNat ≤ num.toNat := UInt16.le_iff_toNat_le.mp h
    rw [UInt16.toNat_sub_of_le _ _ h, hhalf, Nat.mod_eq_sub_mod (by omega),
      Nat.mod_eq_of_lt (by rw [pow_succ] at hnum; omega)]
  · have hlt : num.toNat < half.toNat := by
      simpa [UInt16.le_iff_toNat_le] using h
    rw [Nat.mod_eq_of_lt (by omega)]

/-- **The halving loop is a residue.**  Started from a count `2 ^ j` and a shard number
below it, the loop of `get_original_shard_num` stops exactly at the original count `2 ^ m`
and leaves the shard number modulo `2 ^ m`.  The induction follows the loop; its invariant is
that the count is a power of two at least the original one and the number lies below it. -/
lemma getOriginalShardNumLoop_eq (num count orig : UInt16) (j m : ℕ)
    (hcount : count.toNat = 2 ^ j) (horig : orig.toNat = 2 ^ m) (hmj : m ≤ j)
    (hnum : num.toNat < 2 ^ j) :
    (getOriginalShardNumLoop num count orig).1.toNat = num.toNat % 2 ^ m ∧
      (getOriginalShardNumLoop num count orig).2 = orig := by
  fun_induction getOriginalShardNumLoop num count orig generalizing j with
  | case1 num count hgt half folded ih =>
    -- the count is still above the original one, so it has a half
    have hlt : 2 ^ m < 2 ^ j := by
      rw [← hcount, ← horig]
      exact UInt16.lt_iff_toNat_lt.mp hgt
    have hmj' : m < j := (Nat.pow_lt_pow_iff_right Nat.one_lt_two).mp hlt
    obtain ⟨j', rfl⟩ : ∃ j', j = j' + 1 := ⟨j - 1, by omega⟩
    have hhalf : half.toNat = 2 ^ j' := by
      simp only [half, UInt16.toNat_div, hcount]
      simp [pow_succ]
    have hfold : folded.toNat = num.toNat % 2 ^ j' := fold_half_toNat num half j' hhalf hnum
    obtain ⟨h1, h2⟩ := ih j' hhalf (by omega)
      (by rw [hfold]; exact Nat.mod_lt _ (Nat.two_pow_pos j'))
    refine ⟨?_, h2⟩
    rw [h1, hfold, Nat.mod_mod_of_dvd _ (Nat.pow_dvd_pow 2 (by omega))]
  | case2 num count hgt =>
    -- the loop has stopped: the count is no longer above the original one, so it equals it
    have hle : 2 ^ j ≤ 2 ^ m := by
      rw [← hcount, ← horig]
      simpa [UInt16.lt_iff_toNat_lt] using hgt
    have hjm : j = m := le_antisymm ((Nat.pow_le_pow_iff_right Nat.one_lt_two).mp hle) hmj
    subst hjm
    exact ⟨(Nat.mod_eq_of_lt hnum).symm, UInt16.toNat_inj.mp (hcount.trans horig.symm)⟩

/-- The loop does not run when the count is not above the original one. -/
lemma getOriginalShardNumLoop_of_le (num count orig : UInt16) (h : ¬ count > orig) :
    getOriginalShardNumLoop num count orig = (num, count) := by
  rw [getOriginalShardNumLoop, if_neg h]

/-- The shard of a byte string at a shard count exists and is the trailing value modulo it. -/
lemma shardNumForBytes_some (bytes : List UInt8) (hb : 2 ≤ bytes.length) {c : UInt16}
    (hc : IsShardCount c) :
    ∃ s, shardNumForBytes bytes c = some s ∧ s.toNat = trailingValue bytes % c.toNat := by
  have h := shardNumForBytes_toNat bytes hb c
  rw [if_pos hc] at h
  cases hs : shardNumForBytes bytes c with
  | none => simp [hs] at h
  | some s => exact ⟨s, rfl, by simpa [hs] using h⟩

/-- The residue modulo `2c` is the residue modulo `c`, or `c` above it. -/
lemma mod_two_mul_cases (t c : ℕ) (hc : 0 < c) :
    t % (2 * c) = t % c ∨ t % (2 * c) = t % c + c := by
  have hmod : t % (2 * c) % c = t % c := by
    rw [mul_comm]
    exact Nat.mod_mul_right_mod _ _ _
  have hlt : t % (2 * c) < 2 * c := Nat.mod_lt _ (by omega)
  generalize t % (2 * c) = r at hmod hlt
  by_cases hsmall : r < c
  · left
    rw [← hmod, Nat.mod_eq_of_lt hsmall]
  · right
    rw [← hmod, Nat.mod_eq_sub_mod (by omega), Nat.mod_eq_of_lt (by omega)]
    omega

/-- Doubling a shard count that stays a shard count does not wrap. -/
lemma toNat_two_mul_of_isShardCount {c : UInt16} (hc : IsShardCount c)
    (h2c : IsShardCount (2 * c)) : (2 * c).toNat = 2 * c.toNat := by
  have hmul : (2 * c).toNat = 2 * c.toNat % 2 ^ 16 := by simp [UInt16.toNat_mul]
  obtain ⟨d, hd16, hd⟩ := hc
  rcases Nat.lt_or_ge d 15 with hd15 | hd15
  · rw [hmul, Nat.mod_eq_of_lt]
    have : 2 ^ (d + 1) ≤ 2 ^ 15 := Nat.pow_le_pow_right (by norm_num) (by omega)
    rw [hd, ← pow_succ']
    omega
  · -- at `2 ^ 15` the product wraps to zero, which is no shard count
    have hd' : d = 15 := by omega
    subst hd'
    exact absurd (by rw [hmul, hd]; norm_num) h2c.ne_zero

/-! ## Consistency across scale-outs -/

/-- **Shard assignment is consistent across scale-outs.**  For a byte string of at least two
bytes, `shard_num_for_bytes` answers exactly on the shard counts, below the count; from that
shard `get_original_shard_num` recovers the shard at every smaller shard count and refuses
every larger one; and doubling the count keeps the shard or moves it up by the old count. -/
theorem shard_num_for_bytes_scale_consistent (bytes : List UInt8) (hb : 2 ≤ bytes.length)
    (c : UInt16) :
    ((shardNumForBytes bytes c).isSome ↔ IsShardCount c) ∧
    ∀ s, shardNumForBytes bytes c = some s →
      s < c ∧
      (∀ c', IsShardCount c' → c' ≤ c →
        ∃ s', shardNumForBytes bytes c' = some s' ∧ getOriginalShardNum s c c' = .ok s') ∧
      (∀ c'', IsShardCount c'' → c < c'' →
        getOriginalShardNum s c c'' = .error "Invalid header shard info") ∧
      (IsShardCount (2 * c) →
        shardNumForBytes bytes (2 * c) = some s ∨
          shardNumForBytes bytes (2 * c) = some (s + c)) := by
  have hspec := shardNumForBytes_toNat bytes hb c
  refine ⟨?_, ?_⟩
  · by_cases hc : IsShardCount c
    · obtain ⟨s, hs, -⟩ := shardNumForBytes_some bytes hb hc
      simp [hs, hc]
    · rw [if_neg hc, Option.map_eq_none_iff] at hspec
      simp [hspec, hc]
  intro s hs
  -- a shard exists, so the count is a shard count and `s` is the residue
  have hc : IsShardCount c := by
    by_contra hc
    rw [if_neg hc, Option.map_eq_none_iff] at hspec
    simp [hspec] at hs
  have hsval : s.toNat = trailingValue bytes % c.toNat := by
    rw [if_pos hc, hs] at hspec
    simpa using hspec
  have hslt : s.toNat < c.toNat := by
    rw [hsval]
    exact Nat.mod_lt _ (Nat.pos_of_ne_zero hc.ne_zero)
  obtain ⟨d, -, hd⟩ := id hc
  refine ⟨UInt16.lt_iff_toNat_lt.mpr hslt, ?_, ?_, ?_⟩
  · -- a smaller count: the loop folds `s` down to the residue at that count
    intro c' hc' hle
    obtain ⟨s', hs', hs'val⟩ := shardNumForBytes_some bytes hb hc'
    obtain ⟨d', -, hd'⟩ := id hc'
    have hdd : d' ≤ d := by
      have : 2 ^ d' ≤ 2 ^ d := by
        rw [← hd, ← hd']
        exact UInt16.le_iff_toNat_le.mp hle
      exact (Nat.pow_le_pow_iff_right Nat.one_lt_two).mp this
    obtain ⟨h1, h2⟩ := getOriginalShardNumLoop_eq s c c' d d' hd hd' hdd (hd ▸ hslt)
    refine ⟨s', hs', ?_⟩
    have hval : (getOriginalShardNumLoop s c c').1 = s' := by
      apply UInt16.toNat_inj.mp
      rw [h1, hs'val, hsval, hd, hd',
        Nat.mod_mod_of_dvd _ (Nat.pow_dvd_pow 2 hdd)]
    simp [getOriginalShardNum, h2, hval]
  · -- a larger count: the loop never runs and the counts differ
    intro c'' _ hlt
    have hnot : ¬ c > c'' := by
      have := UInt16.lt_iff_toNat_lt.mp hlt
      simp only [gt_iff_lt, UInt16.lt_iff_toNat_lt]
      omega
    have hne : c ≠ c'' := by
      rintro rfl
      exact absurd (UInt16.lt_iff_toNat_lt.mp hlt) (lt_irrefl _)
    simp [getOriginalShardNum, getOriginalShardNumLoop_of_le s c c'' hnot, hne]
  · -- the doubled count: the residue modulo `2c` is the one modulo `c` or `c` above it
    intro h2c
    have h2cval : (2 * c).toNat = 2 * c.toNat := toNat_two_mul_of_isShardCount hc h2c
    obtain ⟨s2, hs2, hs2val⟩ := shardNumForBytes_some bytes hb h2c
    rw [h2cval] at hs2val
    have hr : s2.toNat = s.toNat ∨ s2.toNat = s.toNat + c.toNat := by
      rw [hs2val, hsval]
      exact mod_two_mul_cases _ _ (Nat.pos_of_ne_zero hc.ne_zero)
    rcases hr with hr | hr
    · left
      rw [hs2, UInt16.toNat_inj.mp hr]
    · right
      rw [hs2]
      congr 1
      apply UInt16.toNat_inj.mp
      have : 2 * c.toNat < 2 ^ 16 := h2cval ▸ (2 * c).toNat_lt
      rw [hr, UInt16.toNat_add, Nat.mod_eq_of_lt (by omega)]

/-- The test vector of `utils.rs`: the bytes `a2 7d` are shard `5` of `8`, and a node that
has not scaled out yet (`4` shards) finds the same account on shard `5 - 4 = 1`. -/
theorem shard_num_for_bytes_scale_consistent_test_bytes :
    2 ≤ [0xa2, 0x7d].length ∧ IsShardCount 8 ∧ shardNumForBytes [0xa2, 0x7d] 8 = some 5 ∧
      ∃ s', shardNumForBytes [0xa2, 0x7d] 4 = some s' ∧ getOriginalShardNum 5 8 4 = .ok s' := by
  have hsome : shardNumForBytes [0xa2, 0x7d] 8 = some 5 := by decide +kernel
  exact ⟨by decide, by decide, hsome,
    ((shard_num_for_bytes_scale_consistent [0xa2, 0x7d] (by decide) 8).2 5 hsome).2.1 4
      (by decide) (by decide)⟩

example : shardNumForBytes [0xa2, 0x7d] 16 = some 0b1101 := by decide +kernel

end Sharding
end Yeeroot

import Yeeroot.Grandpa.Primitives

/-!
# Equivocation bitfields

`bitfield.rs` of `core/finality-grandpa` tracks which voters' weight a vote-node carries, and
which voters have equivocated, so that an equivocator counts once, as voting for everything.
A live bitfield holds two bits per voter, packed into 64-bit words from the left: bit `2 i`
for voter `i`'s prevote and bit `2 i + 1` for its precommit, bit `k` being bit `k % 64` from
the left of word `k / 64`.

`LiveBitfield.bit` reads that layout, and each operation is proved against it:

* `bit_merge`: `merge` is the union of the set bits;
* `bit_overlap`: `overlap` is their intersection;
* `bit_setBit`: `set_bit` adds one bit, or fails past the words and leaves a blank bitfield;
* `totalWeight_eq_sum`: `total_weight` is the `u64` sum of the weights of the voters whose
  prevote and precommit bits are set.  Its loop reads two bits a turn by shifting the word
  left, and stops early on a zero word; the early stop changes nothing.
-/

namespace Yeeroot
namespace Grandpa

/-- `bitfield::Error`. -/
inductive BitfieldError
  | indexOutOfBounds (idx n : ℕ)
  | lengthMismatch (a b : ℕ)
deriving DecidableEq, Repr

/-- `LiveBitfield`: the words. -/
structure LiveBitfield where
  bits : List UInt64
deriving DecidableEq, Repr

/-- `Bitfield`: blank, or live. -/
inductive Bitfield
  | blank
  | live (live : LiveBitfield)
deriving DecidableEq, Repr

/-! ## The operations -/

/-- The inner loop of `total_weight`, `for i in 0..32`, with `remaining` turns left: stop on a
zero word; otherwise add the voter's weight to the prevote total when the leftmost bit is
set and to the precommit total when the next one is, and shift the word two bits left. -/
def weighPairs (lookup : ℕ → UInt64) (valIdx : ℕ) :
    ℕ → ℕ → UInt64 → UInt64 × UInt64 → UInt64 × UInt64
  | 0, _, _, acc => acc
  | remaining + 1, i, word, (prevote, precommit) =>
    if word = 0 then (prevote, precommit)
    else
      let prevote := if word &&& (1 : UInt64) <<< 63 = (1 : UInt64) <<< 63 then
        prevote + lookup (valIdx + i) else prevote
      let precommit := if word &&& (1 : UInt64) <<< 62 = (1 : UInt64) <<< 62 then
        precommit + lookup (valIdx + i) else precommit
      weighPairs lookup valIdx remaining (i + 1) (word <<< 2) (prevote, precommit)

/-- The state `total_weight` folds over the words. -/
structure WeighState where
  valIdx : ℕ
  prevote : UInt64
  precommit : UInt64

/-- One word of `total_weight`: its 32 voters, then the index moves on by 32. -/
def weighWord (lookup : ℕ → UInt64) (state : WeighState) (word : UInt64) : WeighState :=
  let (prevote, precommit) :=
    weighPairs lookup state.valIdx 32 0 word (state.prevote, state.precommit)
  ⟨state.valIdx + 32, prevote, precommit⟩

/-- `total_weight`: the (prevote, precommit) weights of the words, for a weight `lookup` by
voter index. -/
def totalWeight (bits : List UInt64) (lookup : ℕ → UInt64) : UInt64 × UInt64 :=
  let state := bits.foldl (weighWord lookup) ⟨0, 0, 0⟩
  (state.prevote, state.precommit)

namespace LiveBitfield

/-- `LiveBitfield::with_voters`: two bits per voter, in whole words, all unset. -/
def withVoters (nVoters : ℕ) : LiveBitfield :=
  let nBits := nVoters * 2
  let nWords := (nBits + 63) / 64
  ⟨List.replicate nWords 0⟩

/-- `LiveBitfield::set_bit`: set bit `bitIdx % 64` from the left of word `bitIdx / 64`. -/
def setBit (live : LiveBitfield) (bitIdx nVoters : ℕ) : Except BitfieldError LiveBitfield :=
  let wordOff := bitIdx / 64
  let bitOff := bitIdx % 64
  match live.bits[wordOff]? with
  | some word => .ok ⟨live.bits.set wordOff (word ||| 1 <<< UInt64.ofNat (63 - bitOff))⟩
  | none => .error (.indexOutOfBounds (bitIdx / 2) nVoters)

end LiveBitfield

namespace Bitfield

/-- `Bitfield::merge`: the words or'ed; a blank bitfield is the unit. -/
def merge : Bitfield → Bitfield → Except BitfieldError Bitfield
  | blank, blank => .ok blank
  | live l, blank => .ok (live l)
  | blank, live l => .ok (live l)
  | live a, live b =>
    if a.bits.length ≠ b.bits.length then .error (.lengthMismatch a.bits.length b.bits.length)
    else .ok (live ⟨List.zipWith (· ||| ·) a.bits b.bits⟩)

/-- `Bitfield::overlap`: the words and'ed; blank unless both are live. -/
def overlap : Bitfield → Bitfield → Except BitfieldError Bitfield
  | live a, live b =>
    if a.bits.length ≠ b.bits.length then .error (.lengthMismatch a.bits.length b.bits.length)
    else .ok (live ⟨List.zipWith (· &&& ·) a.bits b.bits⟩)
  | _, _ => .ok blank

/-- `Bitfield::total_weight`. -/
def totalWeight (lookup : ℕ → UInt64) : Bitfield → UInt64 × UInt64
  | blank => (0, 0)
  | live l => Grandpa.totalWeight l.bits lookup

/-- `Bitfield::set_bit`, in place.  The bitfield is taken out, leaving a blank one, before
the bit is set, so when the bit is past the words the bitfield is left blank. -/
def setBit (bitfield : Bitfield) (bit nVoters : ℕ) : Bitfield × Except BitfieldError Unit :=
  let live := match bitfield with
    | blank => LiveBitfield.withVoters nVoters
    | live l => l
  match live.setBit bit nVoters with
  | .ok live => (.live live, .ok ())
  | .error e => (.blank, .error e)

end Bitfield

/-- `bitfield::Shared`: the number of voters and the equivocators' bitfield, which the source
shares behind a lock among the round's clones. -/
structure Shared where
  nVoters : ℕ
  equivocators : Bitfield

namespace Shared

/-- `Shared::new`. -/
def new (nVoters : ℕ) : Shared := ⟨nVoters, .blank⟩

/-- `Shared::prevote_bitfield`: a fresh bitfield with the voter's prevote bit. -/
def prevoteBitfield (shared : Shared) (info : VoterInfo) : Except BitfieldError Bitfield :=
  ((LiveBitfield.withVoters shared.nVoters).setBit (info.canonIdx * 2) shared.nVoters).map
    .live

/-- `Shared::precommit_bitfield`: a fresh bitfield with the voter's precommit bit. -/
def precommitBitfield (shared : Shared) (info : VoterInfo) : Except BitfieldError Bitfield :=
  ((LiveBitfield.withVoters shared.nVoters).setBit (info.canonIdx * 2 + 1) shared.nVoters).map
    .live

/-- `Shared::equivocated_prevote`: the voter's prevote bit set among the equivocators. -/
def equivocatedPrevote (shared : Shared) (info : VoterInfo) : Shared × Except BitfieldError Unit :=
  let (equivocators, result) := shared.equivocators.setBit (info.canonIdx * 2) shared.nVoters
  (⟨shared.nVoters, equivocators⟩, result)

/-- `Shared::equivocated_precommit`. -/
def equivocatedPrecommit (shared : Shared) (info : VoterInfo) :
    Shared × Except BitfieldError Unit :=
  let (equivocators, result) :=
    shared.equivocators.setBit (info.canonIdx * 2 + 1) shared.nVoters
  (⟨shared.nVoters, equivocators⟩, result)

end Shared

/-! ## What the words say -/

/-- Bit `k` of a live bitfield: bit `k % 64` from the left of word `k / 64`, unset past the
words. -/
def LiveBitfield.bit (live : LiveBitfield) (k : ℕ) : Bool :=
  match live.bits[k / 64]? with
  | some word => word.toNat.testBit (63 - k % 64)
  | none => false

/-- Bit `k` of a bitfield; a blank one has none set. -/
def Bitfield.bit : Bitfield → ℕ → Bool
  | blank, _ => false
  | live l, k => l.bit k

/-- The number of words of a bitfield. -/
def Bitfield.words : Bitfield → ℕ
  | blank => 0
  | live l => l.bits.length

/-! ## Words and bits -/

lemma toNat_one_shiftLeft {s : UInt64} (hs : s.toNat < 64) :
    ((1 : UInt64) <<< s).toNat = 2 ^ s.toNat := by
  rw [UInt64.toNat_shiftLeft, Nat.mod_eq_of_lt hs, UInt64.toNat_one, Nat.one_shiftLeft,
    Nat.mod_eq_of_lt (Nat.pow_lt_pow_right (by norm_num) hs)]

/-- The test of `total_weight`: a word and'ed with a single bit is that bit exactly when the
word has it. -/
lemma and_single_eq_iff (word : UInt64) {s : UInt64} (hs : s.toNat < 64) :
    word &&& (1 : UInt64) <<< s = (1 : UInt64) <<< s ↔ word.toNat.testBit s.toNat := by
  rw [← UInt64.toNat_inj, UInt64.toNat_and, toNat_one_shiftLeft hs]
  constructor
  · intro h
    have := congrArg (fun n => n.testBit s.toNat) h
    simp only [Nat.testBit_and, Nat.testBit_two_pow_self, Bool.and_true] at this
    exact this
  · intro h
    apply Nat.eq_of_testBit_eq
    intro i
    rw [Nat.testBit_and, Nat.testBit_two_pow]
    by_cases hij : s.toNat = i
    · subst hij
      simp [h]
    · simp [hij]

/-- Shifting a word two bits left moves each bit two places up, inside the word. -/
lemma testBit_shiftLeft_two (word : UInt64) {j : ℕ} (hj : 2 ≤ j) (hj64 : j < 64) :
    (word <<< 2).toNat.testBit j = word.toNat.testBit (j - 2) := by
  rw [UInt64.toNat_shiftLeft, Nat.testBit_mod_two_pow, Nat.testBit_shiftLeft]
  simp [hj, hj64]

/-- A zero word has no bit set. -/
lemma testBit_zero_word (j : ℕ) : (0 : UInt64).toNat.testBit j = false := by
  simp

/-- The bits of a word list from the second word on are those of its tail. -/
lemma bit_cons_add (word : UInt64) (bits : List UInt64) (k : ℕ) :
    LiveBitfield.bit ⟨word :: bits⟩ (64 + k) = LiveBitfield.bit ⟨bits⟩ k := by
  simp only [LiveBitfield.bit]
  rw [show (64 + k) / 64 = k / 64 + 1 by omega, show (64 + k) % 64 = k % 64 by omega]
  rfl

/-- The bits of a word list in its first word are those of the word. -/
lemma bit_cons_of_lt (word : UInt64) (bits : List UInt64) {k : ℕ} (hk : k < 64) :
    LiveBitfield.bit ⟨word :: bits⟩ k = word.toNat.testBit (63 - k) := by
  simp only [LiveBitfield.bit]
  rw [Nat.div_eq_of_lt hk, Nat.mod_eq_of_lt hk]
  rfl

/-! ## Merge, overlap and set -/

/-- Bit `k` of two equally long word lists combined word by word. -/
lemma bit_zipWith {f : UInt64 → UInt64 → UInt64} {g : Bool → Bool → Bool}
    (hfg : ∀ a b j, (f a b).toNat.testBit j = g (a.toNat.testBit j) (b.toNat.testBit j))
    (hg : g false false = false) {a b : List UInt64} (hlen : a.length = b.length) (k : ℕ) :
    LiveBitfield.bit ⟨List.zipWith f a b⟩ k =
      g (LiveBitfield.bit ⟨a⟩ k) (LiveBitfield.bit ⟨b⟩ k) := by
  simp only [LiveBitfield.bit, List.getElem?_zipWith]
  rcases Nat.lt_or_ge (k / 64) a.length with h | h
  · rw [List.getElem?_eq_getElem h, List.getElem?_eq_getElem (hlen ▸ h)]
    exact hfg _ _ _
  · rw [List.getElem?_eq_none h, List.getElem?_eq_none (hlen ▸ h)]
    exact hg.symm

namespace Bitfield

/-- **Merge is union.**  A merge that succeeds sets exactly the bits set in either. -/
theorem bit_merge {a b c : Bitfield} (h : merge a b = .ok c) (k : ℕ) :
    c.bit k = (a.bit k || b.bit k) := by
  cases a with
  | blank =>
    cases b <;> (simp only [merge, Except.ok.injEq] at h; subst h; simp [bit])
  | live la =>
    cases b with
    | blank =>
      simp only [merge, Except.ok.injEq] at h
      subst h
      simp [bit]
    | live lb =>
      simp only [merge] at h
      split_ifs at h with hlen
      simp only [Except.ok.injEq] at h
      subst h
      exact bit_zipWith (fun _ _ _ => by simp [UInt64.toNat_or, Nat.testBit_or]) rfl
        (not_not.mp hlen) k

/-- **Overlap is intersection.** -/
lemma bit_overlap {a b c : Bitfield} (h : overlap a b = .ok c) (k : ℕ) :
    c.bit k = (a.bit k && b.bit k) := by
  cases a with
  | blank =>
    simp only [overlap, Except.ok.injEq] at h
    subst h
    simp [bit]
  | live la =>
    cases b with
    | blank =>
      simp only [overlap, Except.ok.injEq] at h
      subst h
      simp [bit]
    | live lb =>
      simp only [overlap] at h
      split_ifs at h with hlen
      simp only [Except.ok.injEq] at h
      subst h
      exact bit_zipWith (fun _ _ _ => by simp [UInt64.toNat_and, Nat.testBit_and]) rfl
        (not_not.mp hlen) k

/-- Two bitfields merge unless both are live with different numbers of words. -/
lemma merge_ok_of_words {a b : Bitfield}
    (h : a = .blank ∨ b = .blank ∨ a.words = b.words) : ∃ c, merge a b = .ok c := by
  rcases a with _ | la <;> rcases b with _ | lb
  · exact ⟨_, rfl⟩
  · exact ⟨_, rfl⟩
  · exact ⟨_, rfl⟩
  · simp only [words] at h
    rcases h with h | h | h
    · cases h
    · cases h
    · exact ⟨.live ⟨List.zipWith (· ||| ·) la.bits lb.bits⟩, by simp [merge, h]⟩

end Bitfield

namespace LiveBitfield

/-- A fresh bitfield has no bit set. -/
@[simp] lemma bit_withVoters (nVoters k : ℕ) : (withVoters nVoters).bit k = false := by
  simp only [withVoters, bit, List.getElem?_replicate]
  split_ifs <;> simp

@[simp] lemma length_withVoters (nVoters : ℕ) :
    (withVoters nVoters).bits.length = (nVoters * 2 + 63) / 64 := by
  simp [withVoters]

/-- `set_bit` succeeds exactly when the bit is inside the words. -/
lemma setBit_ok_iff (live : LiveBitfield) (bitIdx nVoters : ℕ) :
    (∃ live', live.setBit bitIdx nVoters = .ok live') ↔ bitIdx / 64 < live.bits.length := by
  simp only [setBit]
  constructor
  · rintro ⟨live', h⟩
    split at h
    · rename_i word hword
      exact (List.getElem?_eq_some_iff.mp hword).1
    · cases h
  · intro h
    rw [List.getElem?_eq_getElem h]
    exact ⟨_, rfl⟩

/-- **Set adds one bit.**  A `set_bit` that succeeds sets bit `bitIdx` and keeps every other
bit. -/
theorem bit_setBit {live live' : LiveBitfield} {bitIdx nVoters : ℕ}
    (h : live.setBit bitIdx nVoters = .ok live') (k : ℕ) :
    live'.bit k = (live.bit k || decide (k = bitIdx)) := by
  simp only [setBit] at h
  split at h
  · rename_i word hword
    simp only [Except.ok.injEq] at h
    subst h
    have hlt : bitIdx / 64 < live.bits.length := (List.getElem?_eq_some_iff.mp hword).1
    simp only [bit, List.getElem?_set]
    by_cases hk : bitIdx / 64 = k / 64
    · -- the bit's own word: the old word or'ed with the single bit
      have hoff : (UInt64.ofNat (63 - bitIdx % 64)).toNat = 63 - bitIdx % 64 :=
        UInt64.toNat_ofNat_of_lt' (by
          have : (64 : ℕ) ≤ UInt64.size := by decide
          omega)
      rw [if_pos hk, if_pos (hk ▸ hlt), ← hk, hword]
      simp only
      rw [UInt64.toNat_or, toNat_one_shiftLeft (by omega), hoff, Nat.testBit_or,
        Nat.testBit_two_pow]
      congr 1
      have : 63 - bitIdx % 64 = 63 - k % 64 ↔ k = bitIdx := by omega
      simp [this]
    · rw [if_neg hk]
      have : k ≠ bitIdx := fun hkb => hk (hkb ▸ rfl)
      simp [this]
  · cases h

end LiveBitfield

/-! ## The total weight -/

section Weight

variable (lookup : ℕ → UInt64)

/-- The voter weights a word holds, by the bits `63 - 2 m` (prevote) and `62 - 2 m`
(precommit) of its first `remaining` pairs, voter `valIdx + i + m` at pair `m`. -/
def pairSum (valIdx i remaining : ℕ) (word : UInt64) (offset : ℕ) : UInt64 :=
  ∑ m ∈ Finset.range remaining,
    if word.toNat.testBit (63 - offset - 2 * m) then lookup (valIdx + i + m) else 0

/-- **The pairs loop.**  From pair `i` with `remaining ≤ 32 - i` turns left, the loop adds the
weights of the set pairs of the word; its stop on a zero word skips only unset pairs. -/
lemma weighPairs_eq (valIdx : ℕ) :
    ∀ remaining i (word : UInt64) (prevote precommit : UInt64), remaining ≤ 32 →
      weighPairs lookup valIdx remaining i word (prevote, precommit) =
        (prevote + pairSum lookup valIdx i remaining word 0,
          precommit + pairSum lookup valIdx i remaining word 1)
  | 0, _, _, prevote, precommit, _ => by simp [weighPairs, pairSum]
  | remaining + 1, i, word, prevote, precommit, hr => by
    rw [weighPairs]
    by_cases hzero : word = 0
    · -- a zero word: every pair left is unset
      rw [if_pos hzero]
      subst hzero
      simp [pairSum]
    rw [if_neg hzero, weighPairs_eq valIdx remaining (i + 1) (word <<< 2) _ _ (by omega)]
    -- the shifted word's pair `m` is the word's pair `m + 1`
    have hsum : ∀ offset < 2, pairSum lookup valIdx i (remaining + 1) word offset =
        (if word.toNat.testBit (63 - offset) then lookup (valIdx + i) else 0) +
          pairSum lookup valIdx (i + 1) remaining (word <<< 2) offset := by
      intro offset hoff
      have htail : pairSum lookup valIdx (i + 1) remaining (word <<< 2) offset =
          ∑ m ∈ Finset.range remaining, if word.toNat.testBit (63 - offset - 2 * (m + 1)) then
            lookup (valIdx + i + (m + 1)) else 0 := by
        apply Finset.sum_congr rfl
        intro m hm
        have hm' := Finset.mem_range.mp hm
        rw [testBit_shiftLeft_two word (by omega) (by omega),
          show 63 - offset - 2 * m - 2 = 63 - offset - 2 * (m + 1) by omega,
          show valIdx + (i + 1) + m = valIdx + i + (m + 1) by omega]
      rw [htail, pairSum, Finset.sum_range_succ', add_comm]
      simp
    have h63 : (63 : UInt64).toNat = 63 := rfl
    have h62 : (62 : UInt64).toNat = 62 := rfl
    rw [hsum 0 (by norm_num), hsum 1 (by norm_num)]
    simp only [and_single_eq_iff word (show (63 : UInt64).toNat < 64 by decide),
      and_single_eq_iff word (show (62 : UInt64).toNat < 64 by decide), h63, h62]
    simp only [Prod.mk.injEq]
    constructor <;> split_ifs <;> simp [add_assoc]

/-- One word adds the weights of its 32 voters. -/
lemma weighWord_eq (state : WeighState) (word : UInt64) :
    weighWord lookup state word =
      ⟨state.valIdx + 32, state.prevote + pairSum lookup state.valIdx 0 32 word 0,
        state.precommit + pairSum lookup state.valIdx 0 32 word 1⟩ := by
  simp only [weighWord, weighPairs_eq lookup state.valIdx 32 0 word _ _ le_rfl]

/-- The weights of the voters whose prevote (`offset = 0`) or precommit (`offset = 1`) bit is
set, over the first `n` voters. -/
def setWeight (live : LiveBitfield) (n offset : ℕ) : UInt64 :=
  ∑ i ∈ Finset.range n, if live.bit (2 * i + offset) then lookup i else 0

/-- The fold of `total_weight` over the words. -/
lemma foldl_weighWord : ∀ (bits : List UInt64) (state : WeighState),
    bits.foldl (weighWord lookup) state =
      ⟨state.valIdx + 32 * bits.length,
        state.prevote + setWeight (fun i => lookup (state.valIdx + i)) ⟨bits⟩ (32 * bits.length) 0,
        state.precommit +
          setWeight (fun i => lookup (state.valIdx + i)) ⟨bits⟩ (32 * bits.length) 1⟩
  | [], state => by simp [setWeight]
  | word :: bits, state => by
    rw [List.foldl_cons, foldl_weighWord bits, weighWord_eq]
    -- the word's 32 voters first, then the rest one word on
    have hsplit : ∀ offset < 2,
        setWeight (fun i => lookup (state.valIdx + i)) ⟨word :: bits⟩
            (32 * (word :: bits).length) offset =
          pairSum lookup state.valIdx 0 32 word offset +
            setWeight (fun i => lookup (state.valIdx + 32 + i)) ⟨bits⟩ (32 * bits.length) offset := by
      intro offset hoff
      have hfirst : ∑ m ∈ Finset.range 32,
          (if LiveBitfield.bit ⟨word :: bits⟩ (2 * m + offset) then lookup (state.valIdx + m)
            else 0) = pairSum lookup state.valIdx 0 32 word offset := by
        unfold pairSum
        apply Finset.sum_congr rfl
        intro m hm
        have hm32 := Finset.mem_range.mp hm
        rw [bit_cons_of_lt word bits (by omega),
          show 63 - (2 * m + offset) = 63 - offset - 2 * m by omega, add_zero]
      have hrest : ∑ m ∈ Finset.range (32 * bits.length),
          (if LiveBitfield.bit ⟨word :: bits⟩ (2 * (32 + m) + offset) then
            lookup (state.valIdx + (32 + m)) else 0) =
          setWeight (fun i => lookup (state.valIdx + 32 + i)) ⟨bits⟩ (32 * bits.length) offset := by
        unfold setWeight
        apply Finset.sum_congr rfl
        intro m _
        rw [show 2 * (32 + m) + offset = 64 + (2 * m + offset) by ring, bit_cons_add]
        simp only [add_assoc]
      rw [List.length_cons, show 32 * (bits.length + 1) = 32 + 32 * bits.length by ring,
        setWeight, Finset.sum_range_add, hfirst, hrest]
    simp only [WeighState.mk.injEq]
    refine ⟨by rw [List.length_cons]; ring, ?_, ?_⟩
    · rw [hsplit 0 (by norm_num), add_assoc]
    · rw [hsplit 1 (by norm_num), add_assoc]

/-- **The total weight is the weight of the set bits.**  `total_weight` of a bitfield is the
`u64` sum of the weights of the voters whose prevote bit is set, and that of the voters whose
precommit bit is set, over the 32 voters of each word. -/
theorem totalWeight_eq_sum (bitfield : Bitfield) :
    bitfield.totalWeight lookup =
      (∑ i ∈ Finset.range (32 * bitfield.words), if bitfield.bit (2 * i) then lookup i else 0,
        ∑ i ∈ Finset.range (32 * bitfield.words),
          if bitfield.bit (2 * i + 1) then lookup i else 0) := by
  cases bitfield with
  | blank => simp [Bitfield.totalWeight, Bitfield.words]
  | live l =>
    simp only [Bitfield.totalWeight, Grandpa.totalWeight, foldl_weighWord, Bitfield.words,
      Bitfield.bit, setWeight, zero_add, add_zero]
    rfl

end Weight

end Grandpa
end Yeeroot

import Mathlib

/-!
# Big-endian byte strings

Numbers written as bytes, most significant byte first, as hex and RPC codecs write them:

* `value`: the number a byte string denotes; leading zero bytes do not change it
  (`value_replicate_zero_append`) and `n` bytes hold less than `256 ^ n` (`value_lt`);
* `ofNat w n`: the `w` low bytes of `n`, the layout of `to_be_bytes` of a `w`-byte integer,
  read back as `n % 256 ^ w` (`value_ofNat`);
* `minimal n`: the shortest writing of `n`, one zero byte for zero, read back as `n`
  (`value_minimal`).
-/

namespace BigEndian

/-- The number a byte string denotes, most significant byte first. -/
def value (bytes : List UInt8) : ℕ :=
  bytes.foldl (fun acc b => acc * 256 + b.toNat) 0

@[simp] lemma value_nil : value [] = 0 := rfl

@[simp] lemma value_append_singleton (bytes : List UInt8) (b : UInt8) :
    value (bytes ++ [b]) = value bytes * 256 + b.toNat := by
  simp [value]

/-- A byte in front counts `256` to the power of the bytes behind it. -/
lemma value_cons (b : UInt8) (bytes : List UInt8) :
    value (b :: bytes) = b.toNat * 256 ^ bytes.length + value bytes := by
  induction bytes using List.reverseRecOn with
  | nil => simp [value]
  | append_singleton bytes c ih =>
    rw [← List.cons_append, value_append_singleton, ih, value_append_singleton,
      List.length_append, List.length_singleton, pow_succ]
    ring

@[simp] lemma value_replicate_zero_append (n : ℕ) (bytes : List UInt8) :
    value (List.replicate n 0 ++ bytes) = value bytes := by
  induction n with
  | zero => rfl
  | succ n ih =>
    rw [List.replicate_succ, List.cons_append, value_cons, ih]
    simp

lemma value_lt (bytes : List UInt8) : value bytes < 256 ^ bytes.length := by
  induction bytes using List.reverseRecOn with
  | nil => simp
  | append_singleton bytes b ih =>
    have hb : b.toNat < 256 := b.toNat_lt
    rw [value_append_singleton, List.length_append, List.length_singleton, pow_succ]
    nlinarith

/-- The `w` low bytes of `n`, most significant first. -/
def ofNat : ℕ → ℕ → List UInt8
  | 0, _ => []
  | w + 1, n => ofNat w (n / 256) ++ [UInt8.ofNat (n % 256)]

@[simp] lemma length_ofNat (w n : ℕ) : (ofNat w n).length = w := by
  induction w generalizing n with
  | zero => rfl
  | succ w ih => simp [ofNat, ih]

lemma value_ofNat (w n : ℕ) : value (ofNat w n) = n % 256 ^ w := by
  induction w generalizing n with
  | zero => simp [ofNat, Nat.mod_one]
  | succ w ih =>
    have hlow : (UInt8.ofNat (n % 256)).toNat = n % 256 := by
      simp [UInt8.toNat_ofNat', Nat.mod_mod_of_dvd]
    rw [ofNat, value_append_singleton, ih, hlow, pow_succ, mul_comm (256 ^ w) 256, Nat.mod_mul]
    ring

/-- The shortest big-endian writing of `n`: one byte more than the base-`256` logarithm, so
one zero byte for zero. -/
def minimal (n : ℕ) : List UInt8 :=
  ofNat (Nat.log 256 n + 1) n

lemma value_minimal (n : ℕ) : value (minimal n) = n := by
  rw [minimal, value_ofNat, Nat.mod_eq_of_lt (Nat.lt_pow_succ_log_self (by norm_num) n)]

end BigEndian

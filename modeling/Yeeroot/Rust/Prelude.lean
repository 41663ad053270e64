import Mathlib

/-!
# What the models take from Rust itself

The runtime and node code this development models is Rust, and two of its behaviours appear
in almost every model: a function can *panic*, and integer arithmetic is fixed-width.

A panic (`unreachable!()`, an `expect` or `unwrap` on `None`, a failed `assert!`) is not an
error the caller handles: it aborts the block import or the runtime call.  The models keep
the two apart.  A function of the source returning `Result<T, E>` becomes `Except E T`; a
function that can panic returns `Except Panic _` around that, so that a theorem saying a
path does not panic is a theorem about the `Panic` case alone.

Integer types are modelled as `UInt16`, `UInt32`, `UInt64` where Lean has them, with their
wrapping arithmetic, which is what the release builds of the runtime and the node do.
-/

namespace Rust

/-- A Rust panic, with the message the source gives it. -/
structure Panic where
  msg : String
deriving DecidableEq, Repr

namespace Panic

/-- The message of `unreachable!()`. -/
def unreachable : Panic := ⟨"internal error: entered unreachable code"⟩

/-- The panic of `Option::expect(msg)` on `None`: the message alone. -/
def expect (msg : String) : Panic := ⟨msg⟩

/-- The message of `Option::unwrap` on `None`. -/
def unwrapNone : Panic := ⟨"called Option::unwrap() on a None value"⟩

/-- The panic of the range `s[..index]` past the end of a slice of length `len`. -/
def sliceIndexLen (index len : ℕ) : Panic :=
  ⟨"index " ++ toString index ++ " out of range for slice of length " ++ toString len⟩

/-- The panic of the index `s[index]` past the end of a slice of length `len`. -/
def indexOutOfBounds (len index : ℕ) : Panic :=
  ⟨"index out of bounds: the len is " ++ toString len ++ " but the index is " ++ toString index⟩

/-- The panic of `Vec::encode`'s `assert!` that the length of the vector fits in a `u32`. -/
def tooManyElements : Panic := ⟨"Attempted to serialize a collection with too many elements."⟩

/-- The panic of a failed `assert!(cond)` without a message. -/
def assertFailed (cond : String) : Panic := ⟨"assertion failed: " ++ cond⟩

/-- The panic of a failed `assert_eq!(left, right, msg)`, as the standard library of Rust 1.46
(the toolchain of the Dockerfile) formats it. -/
def assertEq (left right msg : String) : Panic :=
  ⟨"assertion failed: \x60(left == right)\x60\n  left: \x60" ++ left ++ "\x60,\n right: \x60" ++ right ++
    "\x60: " ++ msg⟩

/-- The panic of `dst.copy_from_slice(src)` when the lengths differ. -/
def copyFromSlice (dstLen srcLen : ℕ) : Panic :=
  assertEq (toString dstLen) (toString srcLen) "destination and source slices have different lengths"

/-- The panic of integer `/` by zero. -/
def divideByZero : Panic := ⟨"attempt to divide by zero"⟩

end Panic

/-! ## `u128` on natural numbers

The runtime's balances are `u128`.  They are natural numbers here, and each operation of the
source keeps its own overflow behaviour: `checked_*` fails, `saturating_*` clamps, and a
plain `+` or `*` wraps as a release build does. -/

namespace U128

/-- `u128::max_value() + 1`. -/
def modulus : ℕ := 2 ^ 128

/-- `checked_add`. -/
def checkedAdd (a b : ℕ) : Option ℕ := if a + b < modulus then some (a + b) else none

/-- `checked_sub`. -/
def checkedSub (a b : ℕ) : Option ℕ := if b ≤ a then some (a - b) else none

/-- `checked_mul`. -/
def checkedMul (a b : ℕ) : Option ℕ := if a * b < modulus then some (a * b) else none

/-- `+` of a release build. -/
def wrappingAdd (a b : ℕ) : ℕ := (a + b) % modulus

/-- `*` of a release build. -/
def wrappingMul (a b : ℕ) : ℕ := a * b % modulus

/-- `saturating_add`. -/
def saturatingAdd (a b : ℕ) : ℕ := min (a + b) (modulus - 1)

/-- `saturating_sub`. -/
def saturatingSub (a b : ℕ) : ℕ := a - b

end U128

/-! ## `u64`

The weights of the finality gadget are `u64`, kept as `UInt64`: a plain `+` or `-` wraps. -/

namespace U64

/-- `u64::saturating_sub`. -/
def saturatingSub (a b : UInt64) : UInt64 := if b ≤ a then a - b else 0

/-- `u64::saturating_add`. -/
def saturatingAdd (a b : UInt64) : UInt64 :=
  if a.toNat + b.toNat < 2 ^ 64 then a + b else UInt64.ofNat (2 ^ 64 - 1)

end U64

end Rust

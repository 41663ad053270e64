import Mathlib

/-!
# Perfect Merkle trees and their inclusion proofs

A tree over `2 ^ height` leaves, built level by level: each level hashes adjacent siblings,
left then right, with a `node` function, until one node, the root, is left.  The inclusion
proof of leaf `i` is its *lemma*, the leaf, the sibling met at each level on the way up and the
root, and its *path*, at each level whether the node on the way is a left child.  A proof is
valid when the walk from its first lemma entry, hashing in each sibling on the side the path
gives, ends at its last entry.

* `length_level`: level `k` of a tree of height `height` has `2 ^ (height - k)` nodes;
* `getD_levelUp`: a node of a level is the hash of its two children;
* `climb_genProof`: the walk of a generated proof from level `k` reaches the root;
* `validate_genProof`: every generated proof is valid.

Nothing here depends on the hash: `node` is any function, and the lemma entries are of any
type with a default.
-/

namespace Merkle

variable {α : Type} (node : α → α → α)

/-- One level up: adjacent siblings, left then right, hashed into their parent. -/
def levelUp : List α → List α
  | a :: b :: rest => node a b :: levelUp rest
  | _ => []

/-- Level `k` of the tree over `leaves`, the leaves being level `0`. -/
def level (leaves : List α) : ℕ → List α
  | 0 => leaves
  | k + 1 => levelUp node (level leaves k)

/-- The position of the sibling of position `j` in its level. -/
def sibling (j : ℕ) : ℕ := if j % 2 = 0 then j + 1 else j - 1

/-- The walk of a proof: at each level the current node is hashed with the next lemma entry,
on the left when the path says the node is a left child. -/
def climb : α → List α → List Bool → α
  | h, x :: xs, isLeft :: path => climb (if isLeft then node h x else node x h) xs path
  | h, _, _ => h

variable [Inhabited α]

/-- The root of a tree of `height` levels: the first node of its top level. -/
def root (height : ℕ) (leaves : List α) : α :=
  (level node leaves height).headD default

/-- The siblings met on the way from leaf `i` to the root, from the leaves up. -/
def siblings (height : ℕ) (leaves : List α) (i : ℕ) : List α :=
  (List.range height).map fun k => (level node leaves k).getD (sibling (i / 2 ^ k)) default

/-- The path from leaf `i` to the root: at each level whether the node is a left child. -/
def path (height i : ℕ) : List Bool :=
  (List.range height).map fun k => i / 2 ^ k % 2 == 0

/-- The inclusion proof of leaf `i`: its lemma (the leaf, its siblings, the root) and its
path. -/
def genProof (height : ℕ) (leaves : List α) (i : ℕ) : List α × List Bool :=
  (leaves.getD i default :: (siblings node height leaves i ++ [root node height leaves]),
    path height i)

/-- A proof is valid when it has at least two entries and the walk from its first one, through
the ones between, ends at its last one. -/
def validate [DecidableEq α] (nodes : List α) (path : List Bool) : Bool :=
  if nodes.length < 2 then false
  else climb node (nodes.headD default) (nodes.drop 1).dropLast path == nodes.getLastD default

/-- A proof has one sibling per level. -/
@[simp] lemma length_siblings (height : ℕ) (leaves : List α) (i : ℕ) :
    (siblings node height leaves i).length = height := by
  simp [siblings]

/-! ## The levels -/

omit [Inhabited α] in
@[simp] lemma length_levelUp : ∀ l : List α, (levelUp node l).length = l.length / 2
  | a :: b :: rest => by
    rw [levelUp, List.length_cons, length_levelUp rest]
    simp only [List.length_cons]
    omega
  | [] => by simp [levelUp]
  | [_] => by simp [levelUp]

omit [Inhabited α] in
/-- A node of a level is the hash of its two children in the level below. -/
lemma getD_levelUp : ∀ (l : List α) (m : ℕ), m < l.length / 2 → ∀ d : α,
    (levelUp node l).getD m d = node (l.getD (2 * m) d) (l.getD (2 * m + 1) d)
  | _ :: _ :: _, 0, _, _ => rfl
  | _ :: _ :: rest, m + 1, hm, d => by
    have hm' : m < rest.length / 2 := by
      simp only [List.length_cons] at hm
      omega
    rw [levelUp, List.getD_cons_succ, getD_levelUp rest m hm' d,
      show 2 * (m + 1) = 2 * m + 1 + 1 by ring, show 2 * m + 1 + 1 + 1 = (2 * m + 1) + 1 + 1 from rfl]
    simp only [List.getD_cons_succ]
  | [], _, hm, _ => by simp at hm
  | [_], _, hm, _ => by simp at hm

omit [Inhabited α] in
/-- Level `k` of a tree of `2 ^ height` leaves has `2 ^ (height - k)` nodes. -/
lemma length_level {height : ℕ} {leaves : List α} (hleaves : leaves.length = 2 ^ height) :
    ∀ k ≤ height, (level node leaves k).length = 2 ^ (height - k)
  | 0, _ => by
    rw [level]
    simpa using hleaves
  | k + 1, hk => by
    rw [level, length_levelUp, length_level hleaves k (by omega),
      show height - k = height - (k + 1) + 1 by omega, pow_succ]
    simp

omit [Inhabited α] in
/-- One step of the walk: a node and its sibling, in the order of the path, hash into the
parent at half the position. -/
lemma node_sibling {l : List α} {j : ℕ} (hj : j < l.length) (heven : l.length % 2 = 0) (d : α) :
    (if j % 2 = 0 then node (l.getD j d) (l.getD (sibling j) d)
      else node (l.getD (sibling j) d) (l.getD j d)) = (levelUp node l).getD (j / 2) d := by
  rw [getD_levelUp node l (j / 2) (by omega)]
  unfold sibling
  split_ifs with h
  · rw [show 2 * (j / 2) = j by omega]
  · rw [show 2 * (j / 2) = j - 1 by omega, show j - 1 + 1 = j by omega]

/-! ## Generated proofs are valid -/

/-- **The walk of a generated proof.**  From the node on the way at level `k`, the siblings
and path bits of the levels `k, …, height - 1` lead to the root. -/
lemma climb_genProof {height : ℕ} {leaves : List α} (hleaves : leaves.length = 2 ^ height)
    {i : ℕ} (hi : i < 2 ^ height) :
    ∀ n k, k + n = height →
      climb node ((level node leaves k).getD (i / 2 ^ k) default)
        ((List.range' k n).map fun k => (level node leaves k).getD (sibling (i / 2 ^ k)) default)
        ((List.range' k n).map fun k => i / 2 ^ k % 2 == 0) = root node height leaves
  | 0, k, hk => by
    -- at the top the walk is at the one node of the level
    subst hk
    rw [Nat.add_zero] at hleaves hi ⊢
    have hlen := length_level node hleaves k le_rfl
    rw [Nat.sub_self, pow_zero] at hlen
    obtain ⟨a, ha⟩ := List.length_eq_one_iff.mp hlen
    simp [climb, root, ha, Nat.div_eq_of_lt hi]
  | n + 1, k, hk => by
    have hlen := length_level node hleaves k (by omega)
    have hj : i / 2 ^ k < (level node leaves k).length := by
      rw [hlen, Nat.div_lt_iff_lt_mul (by positivity), ← pow_add,
        show height - k + k = height by omega]
      exact hi
    have heven : (level node leaves k).length % 2 = 0 := by
      rw [hlen, show height - k = height - k - 1 + 1 by omega, pow_succ]
      simp
    rw [List.range'_succ, List.map_cons, List.map_cons, climb]
    -- the node at level `k + 1` is the parent, at half the position
    have hstep := node_sibling node hj heven default
    simp only [beq_iff_eq]
    rw [hstep, ← climb_genProof hleaves hi n (k + 1) (by omega), level, Nat.div_div_eq_div_mul,
      ← pow_succ]

/-- **Every generated proof is valid.** -/
theorem validate_genProof [DecidableEq α] {height : ℕ} {leaves : List α}
    (hleaves : leaves.length = 2 ^ height) {i : ℕ} (hi : i < 2 ^ height) :
    validate node (genProof node height leaves i).1 (genProof node height leaves i).2 = true := by
  have hclimb := climb_genProof node hleaves hi height 0 (by omega)
  rw [level, Nat.pow_zero, Nat.div_one, ← List.range_eq_range'] at hclimb
  have hlen : ¬ (genProof node height leaves i).1.length < 2 := by
    simp [genProof, siblings]
  rw [validate, if_neg hlen]
  simp only [genProof, List.headD_cons, List.drop_one, List.tail_cons, List.dropLast_concat,
    List.getLastD_eq_getLast?, List.getLast?_cons, List.getLast?_concat, Option.getD_some]
  simpa [siblings, path] using hclimb

end Merkle

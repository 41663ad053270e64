import Mathlib

/-!
# Block trees

A tree of blocks as a chain client sees it: every block has a number, its height, and at every
lower number one ancestor, the block its parent links lead to.  Two laws tie the two together:
the ancestor at a number has that number, and the ancestor of an ancestor is the ancestor.

* `BlockTree.Descends a b`: `b` is `a` or a block above it (`a` is `b`'s ancestor at `a`'s
  number);
* `BlockTree.edge h m`: the blocks below `h`, from its parent down to its ancestor of number
  `m`, in that order.  Ancestries are handed around in this form, and the edges of a tree of
  nodes drawn on the block tree are of it.

Two ancestors of one block are comparable (`Descends.of_descends_of_number_le`), and an edge
cut at a number splits into the edge above the cut and the edge of the block at the cut
(`take_edge`, `drop_edge`).  `BlockTree.line` is the tree of one chain, its blocks named by their
numbers.
-/

/-- A block tree: numbers and the ancestor at every lower number.  The ancestor at a number
above the block's own is not constrained. -/
structure BlockTree (H : Type) where
  number : H → ℕ
  ancestorAt : H → ℕ → H
  number_ancestorAt : ∀ h n, n ≤ number h → number (ancestorAt h n) = n
  ancestorAt_self : ∀ h, ancestorAt h (number h) = h
  ancestorAt_ancestorAt : ∀ h m n, n ≤ m → m ≤ number h →
    ancestorAt (ancestorAt h m) n = ancestorAt h n

namespace BlockTree

variable {H : Type} (T : BlockTree H)

/-- `b` is `a` or a block above it. -/
def Descends (a b : H) : Prop := T.number a ≤ T.number b ∧ T.ancestorAt b (T.number a) = a

instance [DecidableEq H] (a b : H) : Decidable (T.Descends a b) :=
  inferInstanceAs (Decidable (_ ∧ _))

variable {T}

theorem descends_refl (a : H) : T.Descends a a := ⟨le_rfl, T.ancestorAt_self a⟩

theorem descends_ancestorAt {h : H} {n : ℕ} (hn : n ≤ T.number h) :
    T.Descends (T.ancestorAt h n) h := by
  refine ⟨?_, ?_⟩
  · rw [T.number_ancestorAt h n hn]
    exact hn
  · rw [T.number_ancestorAt h n hn]

/-- Above a block, the ancestors below it are its own. -/
theorem Descends.ancestorAt_eq {a b : H} (hab : T.Descends a b) {n : ℕ} (hn : n ≤ T.number a) :
    T.ancestorAt b n = T.ancestorAt a n := by
  obtain ⟨hle, hanc⟩ := hab
  calc T.ancestorAt b n = T.ancestorAt (T.ancestorAt b (T.number a)) n :=
        (T.ancestorAt_ancestorAt b _ n hn hle).symm
    _ = T.ancestorAt a n := by rw [hanc]

theorem Descends.trans {a b c : H} (hab : T.Descends a b) (hbc : T.Descends b c) :
    T.Descends a c := by
  refine ⟨le_trans hab.1 hbc.1, ?_⟩
  rw [hbc.ancestorAt_eq hab.1]
  exact hab.2

theorem Descends.eq_of_number_eq {a b : H} (hab : T.Descends a b)
    (hnum : T.number a = T.number b) : a = b := by
  have h := hab.2
  rw [hnum, T.ancestorAt_self] at h
  exact h.symm

theorem Descends.eq_of_number_le {a b : H} (hab : T.Descends a b)
    (hnum : T.number b ≤ T.number a) : a = b :=
  hab.eq_of_number_eq (le_antisymm hab.1 hnum)

/-- Two ancestors of one block are comparable: the lower is an ancestor of the higher. -/
theorem Descends.of_descends_of_number_le {a b c : H} (hac : T.Descends a c)
    (hbc : T.Descends b c) (hle : T.number a ≤ T.number b) : T.Descends a b := by
  refine ⟨hle, ?_⟩
  rw [← hbc.ancestorAt_eq hle]
  exact hac.2

/-- A block above `a` has `a` as its ancestor at `a`'s number. -/
theorem Descends.ancestorAt_number {a b : H} (hab : T.Descends a b) :
    T.ancestorAt b (T.number a) = a := hab.2

/-! ## Edges -/

variable (T)

/-- The blocks below `h`, from its parent down to its ancestor of number `m`. -/
def edge (h : H) (m : ℕ) : List H :=
  (List.range (T.number h - m)).map fun k => T.ancestorAt h (T.number h - 1 - k)

variable {T}

@[simp]
theorem length_edge (h : H) (m : ℕ) : (T.edge h m).length = T.number h - m := by
  simp [edge]

theorem getElem?_edge (h : H) (m k : ℕ) :
    (T.edge h m)[k]? =
      if k < T.number h - m then some (T.ancestorAt h (T.number h - 1 - k)) else none := by
  by_cases hk : k < T.number h - m
  · simp [edge, hk]
  · simp [edge, hk]

theorem mem_edge {h x : H} {m : ℕ} :
    x ∈ T.edge h m ↔ ∃ j, m ≤ j ∧ j < T.number h ∧ T.ancestorAt h j = x := by
  simp only [edge, List.mem_map, List.mem_range]
  constructor
  · rintro ⟨k, hk, rfl⟩
    exact ⟨T.number h - 1 - k, by omega, by omega, rfl⟩
  · rintro ⟨j, hmj, hjn, rfl⟩
    refine ⟨T.number h - 1 - j, by omega, ?_⟩
    congr 1
    omega

/-- A block on an edge descends from the edge's bottom and lies below the edge's top. -/
theorem descends_of_mem_edge {h x : H} {m : ℕ} (hx : x ∈ T.edge h m) :
    T.Descends x h ∧ m ≤ T.number x ∧ T.number x < T.number h := by
  obtain ⟨j, hmj, hjn, rfl⟩ := mem_edge.mp hx
  rw [T.number_ancestorAt h j hjn.le]
  exact ⟨descends_ancestorAt hjn.le, hmj, hjn⟩

theorem getLast?_edge {h : H} {m : ℕ} (hm : m < T.number h) :
    (T.edge h m).getLast? = some (T.ancestorAt h m) := by
  rw [List.getLast?_eq_getElem?, length_edge, getElem?_edge, if_pos (by omega)]
  congr 2
  omega

@[simp]
theorem edge_self (h : H) : T.edge h (T.number h) = [] := by
  simp [edge]

/-- The part of an edge down to a block on it is the edge down to that block. -/
theorem take_edge {h : H} {m j : ℕ} (hmj : m ≤ j) (hj : j ≤ T.number h) :
    (T.edge h m).take (T.number h - j) = T.edge h j := by
  apply List.ext_getElem?
  intro k
  rw [List.getElem?_take, getElem?_edge, getElem?_edge]
  by_cases hk : k < T.number h - j
  · rw [if_pos hk, if_pos hk, if_pos (by omega)]
  · rw [if_neg hk, if_neg hk]

/-- The part of an edge below a block on it is the edge of that block. -/
theorem drop_edge {h : H} {m j : ℕ} (hmj : m ≤ j) (hj : j ≤ T.number h) :
    (T.edge h m).drop (T.number h - j) = T.edge (T.ancestorAt h j) m := by
  apply List.ext_getElem?
  intro k
  rw [List.getElem?_drop, getElem?_edge, getElem?_edge, T.number_ancestorAt h j hj]
  by_cases hk : k < j - m
  · rw [if_pos (by omega), if_pos hk, T.ancestorAt_ancestorAt h j _ (by omega) hj]
    congr 2
    omega
  · rw [if_neg (by omega), if_neg hk]

/-- An edge down to `m + 1` and the block of number `m` make the edge down to `m`. -/
theorem edge_append_ancestorAt {h : H} {m : ℕ} (hm : m < T.number h) :
    T.edge h (m + 1) ++ [T.ancestorAt h m] = T.edge h m := by
  apply List.ext_getElem?
  intro k
  rw [List.getElem?_append, length_edge, getElem?_edge, getElem?_edge]
  by_cases hk : k < T.number h - (m + 1)
  · rw [if_pos hk, if_pos hk, if_pos (by omega)]
  · rw [if_neg hk]
    by_cases hlast : k = T.number h - (m + 1)
    · rw [hlast, Nat.sub_self, if_pos (by omega)]
      simp only [List.getElem?_cons_zero]
      congr 2
      omega
    · rw [if_neg (by omega), List.getElem?_singleton, if_neg (by omega)]

/-! ## The line -/

/-- The block tree of one chain of blocks `0, 1, 2, …`, each block its own number. -/
def line : BlockTree ℕ where
  number := id
  ancestorAt h n := min n h
  number_ancestorAt _ _ hn := min_eq_left hn
  ancestorAt_self h := min_self h
  ancestorAt_ancestorAt h m n hnm _ := by
    simp only [min_eq_left hnm, ← min_assoc]

end BlockTree

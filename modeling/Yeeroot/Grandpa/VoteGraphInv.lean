import Yeeroot.Grandpa.VoteGraph
import Yeeroot.Lib.BlockTree

/-!
# The vote-graph's invariant

The `expect`s of `vote_graph.rs` rest on the shape its graph keeps: "vote-node and its ancestry
always exist after initial phase", "this function only invoked with direct ancestors", "base is
kept".  Here the shape is stated against a block tree `T` from which the chain answers
`ancestry` (`Chain.Lawful`), and `insert` is shown to keep it, never to panic on it, and to keep
every node's cumulative vote equal to the votes cast on or above it.

* `VoteGraph.Shape`: the nodes are blocks descending from the base, numbered as in `T`; every
  node but the base stores as `ancestors` the edge down to its parent node, the highest node
  below it; a node's `descendents` are the nodes whose parent it is, once each; the heads are
  the nodes without descendents, once each, and every node lies below one of them;
* `VoteGraph.Inv`: on top, every vote cast is on a node, and the cumulative vote of every node
  reads (through `α`, into a join-semilattice) as the join of the votes cast on it or on a
  block above it (`joinedVote`).

A block that is not a node is found on the edges of exactly the nodes whose edge holds it
(`findContainingNodes_spec`, the walk's completeness resting on `WalkInv`).
-/

namespace Yeeroot
namespace Grandpa

open Rust

variable {H V : Type} [DecidableEq H]

/-- The chain answers `ancestry` from the block tree, as the `Chain` trait asks: for a block
strictly above the base, the blocks from its parent down to the base's child; for any other
block, the error. -/
def Chain.Lawful (chain : Chain H) (T : BlockTree H) : Prop :=
  ∀ base block, chain.ancestry base block =
    if T.number base < T.number block ∧ T.ancestorAt block (T.number base) = base then
      .ok (T.edge block (T.number base + 1))
    else .error .notDescendent

/-- The chain that answers `ancestry` from a block tree, and knows no best chain. -/
def Chain.ofTree (T : BlockTree H) : Chain H where
  ancestry base block :=
    if T.number base < T.number block ∧ T.ancestorAt block (T.number base) = base then
      .ok (T.edge block (T.number base + 1))
    else .error .notDescendent
  bestChainContaining _ := none

theorem Chain.ofTree_lawful (T : BlockTree H) : (Chain.ofTree T).Lawful T := fun _ _ => rfl

section Votes

variable {M : Type} [SemilatticeSup M] [OrderBot M]

/-- Vote values read in a join-semilattice: `α` reads a value, `Good` holds of the values a
graph keeps, and on good values the addition succeeds, stays good and reads as the join. -/
structure VoteOps.Lawful (ops : VoteOps V) (α : V → M) (Good : V → Prop) : Prop where
  default_good : Good ops.default
  α_default : α ops.default = ⊥
  addAssign_ok : ∀ a b, Good a → Good b →
    ∃ c, ops.addAssign a b = .ok c ∧ Good c ∧ α c = α a ⊔ α b

/-- The join of the votes cast on `h` or on a block above it. -/
def joinedVote (T : BlockTree H) (α : V → M) : List (H × V) → H → M
  | [], _ => ⊥
  | (t, v) :: votes, h => (if T.Descends h t then α v else ⊥) ⊔ joinedVote T α votes h

variable {T : BlockTree H} {α : V → M}

theorem joinedVote_le_iff (votes : List (H × V)) (h : H) (c : M) :
    joinedVote T α votes h ≤ c ↔ ∀ t v, (t, v) ∈ votes → T.Descends h t → α v ≤ c := by
  induction votes with
  | nil => simp [joinedVote]
  | cons tv votes ih =>
    obtain ⟨t, v⟩ := tv
    rw [joinedVote, sup_le_iff, ih]
    constructor
    · rintro ⟨hhead, hrest⟩ t' v' hmem hdesc
      rcases List.mem_cons.mp hmem with heq | hmem
      · simp only [Prod.mk.injEq] at heq
        obtain ⟨rfl, rfl⟩ := heq
        simpa [hdesc] using hhead
      · exact hrest t' v' hmem hdesc
    · intro hall
      refine ⟨?_, fun t' v' hmem hdesc => hall t' v' (List.mem_cons_of_mem _ hmem) hdesc⟩
      split_ifs with hdesc
      · exact hall t v List.mem_cons_self hdesc
      · exact bot_le

theorem le_joinedVote {votes : List (H × V)} {h t : H} {v : V} (hmem : (t, v) ∈ votes)
    (hdesc : T.Descends h t) : α v ≤ joinedVote T α votes h :=
  (joinedVote_le_iff votes h _).mp le_rfl t v hmem hdesc

theorem joinedVote_append (votes : List (H × V)) (t : H) (v : V) (h : H) :
    joinedVote T α (votes ++ [(t, v)]) h =
      joinedVote T α votes h ⊔ (if T.Descends h t then α v else ⊥) := by
  induction votes with
  | nil => simp [joinedVote]
  | cons tv votes ih =>
    obtain ⟨t', v'⟩ := tv
    rw [List.cons_append, joinedVote, joinedVote, ih, sup_assoc]

end Votes

/-! ## Reading an entry's edge -/

section Edge

variable {T : BlockTree H}

omit [DecidableEq H] in
/-- An entry whose ancestors are the edge of `h` down to `m` holds, at each number from `m` up
to below `h`, `h`'s ancestor there, and nothing elsewhere. -/
theorem Entry.ancestorBlock_of_edge {entry : Entry H V} {h : H} {m : ℕ}
    (hnum : entry.number = T.number h) (hanc : entry.ancestors = T.edge h m) (j : ℕ) :
    entry.ancestorBlock j = if m ≤ j ∧ j < T.number h then some (T.ancestorAt h j) else none := by
  simp only [Entry.ancestorBlock, hnum, hanc]
  by_cases hj : j < T.number h
  · rw [if_neg (by omega), BlockTree.getElem?_edge]
    by_cases hm : m ≤ j
    · rw [if_pos (by omega), if_pos ⟨hm, hj⟩]
      congr 2
      omega
    · rw [if_neg (by omega), if_neg (by omega)]
  · rw [if_pos (by omega), if_neg (by omega)]

omit [DecidableEq H] in
theorem Entry.ancestorNode_of_edge {entry : Entry H V} {h : H} {m : ℕ}
    (hanc : entry.ancestors = T.edge h m) (hm : m < T.number h) :
    entry.ancestorNode = some (T.ancestorAt h m) := by
  rw [Entry.ancestorNode, hanc, BlockTree.getLast?_edge hm]

end Edge

namespace VoteGraph

theorem mem_of_lookup {graph : VoteGraph H V} {h : H} {entry : Entry H V}
    (he : graph.entries.lookup h = some entry) : h ∈ graph.entries :=
  AList.lookup_isSome.mp (by rw [he]; rfl)

theorem exists_lookup {graph : VoteGraph H V} {h : H} (hh : h ∈ graph.entries) :
    ∃ entry, graph.entries.lookup h = some entry :=
  Option.isSome_iff_exists.mp (AList.lookup_isSome.mpr hh)

variable (T : BlockTree H)

/-- `m` is the number of `h`'s parent node: `h`'s ancestor there is a node, and none of its
ancestors strictly between is. -/
def ParentNodeAt (graph : VoteGraph H V) (h : H) (m : ℕ) : Prop :=
  m < T.number h ∧ T.ancestorAt h m ∈ graph.entries ∧
    ∀ j, m < j → j < T.number h → T.ancestorAt h j ∉ graph.entries

/-- The shape of a vote-graph drawn on the block tree `T`. -/
structure Shape (graph : VoteGraph H V) : Prop where
  base_mem : graph.base ∈ graph.entries
  base_number : T.number graph.base = graph.baseNumber
  base_ancestors : ∀ e, graph.entries.lookup graph.base = some e → e.ancestors = []
  number : ∀ h e, graph.entries.lookup h = some e → e.number = T.number h
  descends_base : ∀ h ∈ graph.entries, T.Descends graph.base h
  edge : ∀ h e, graph.entries.lookup h = some e → h ≠ graph.base →
    ∃ m, ParentNodeAt T graph h m ∧ e.ancestors = T.edge h m
  descendents_nodup : ∀ p e, graph.entries.lookup p = some e → e.descendents.Nodup
  mem_descendents : ∀ p e, graph.entries.lookup p = some e → ∀ c,
    c ∈ e.descendents ↔ ∃ ec, graph.entries.lookup c = some ec ∧ ec.ancestorNode = some p
  heads_nodup : graph.heads.Nodup
  mem_heads : ∀ l, l ∈ graph.heads ↔ ∃ e, graph.entries.lookup l = some e ∧ e.descendents = []
  heads_cover : ∀ h ∈ graph.entries, ∃ l ∈ graph.heads, T.Descends h l

variable {M : Type} [SemilatticeSup M] [OrderBot M] in
/-- The invariant of a vote-graph and the votes cast into it: the shape, every vote on a node,
and every node's cumulative vote good and reading as the join of the votes on or above it. -/
structure Inv (α : V → M) (Good : V → Prop) (graph : VoteGraph H V) (votes : List (H × V)) : Prop
    extends Shape T graph where
  votes_mem : ∀ t v, (t, v) ∈ votes → t ∈ graph.entries
  cumulative : ∀ h e, graph.entries.lookup h = some e → α e.cumulativeVote = joinedVote T α votes h
  good : ∀ h e, graph.entries.lookup h = some e → Good e.cumulativeVote

/-- The node `x`'s edge holds `hash` at `number`. -/
def EdgeHolds (graph : VoteGraph H V) (hash : H) (number : ℕ) (x : H) : Prop :=
  ∃ e, graph.entries.lookup x = some e ∧ e.ancestorBlock number = some hash

variable {T}

theorem EdgeHolds.mem {graph : VoteGraph H V} {hash x : H} {number : ℕ}
    (hx : graph.EdgeHolds hash number x) : x ∈ graph.entries := by
  obtain ⟨e, he, -⟩ := hx
  exact mem_of_lookup he

/-- A parent node stays one when a block is added that is not strictly between. -/
theorem ParentNodeAt.of_entries {graph graph' : VoteGraph H V} {hash y : H} {m : ℕ}
    (hpar : ParentNodeAt T graph y m)
    (hmem : ∀ k, k ∈ graph'.entries ↔ k = hash ∨ k ∈ graph.entries)
    (hoff : ∀ i, m < i → i < T.number y → T.ancestorAt y i ≠ hash) :
    ParentNodeAt T graph' y m := by
  refine ⟨hpar.1, (hmem _).mpr (.inr hpar.2.1), fun i hmi hin hi => ?_⟩
  rcases (hmem _).mp hi with heq | hi
  · exact hoff i hmi hin heq
  · exact hpar.2.2 i hmi hin hi

/-- A node has one parent node. -/
theorem ParentNodeAt.unique {graph : VoteGraph H V} {x : H} {m m' : ℕ}
    (h : ParentNodeAt T graph x m) (h' : ParentNodeAt T graph x m') : m = m' := by
  rcases lt_trichotomy m m' with hlt | heq | hgt
  · exact absurd h'.2.1 (h.2.2 m' hlt h'.1)
  · exact heq
  · exact absurd h.2.1 (h'.2.2 m hgt h.1)

/-- Two nodes with the same ancestor at a number whose edges both reach that number have the
same parent node: a parent node of one strictly above the other's would lie inside the other's
edge. -/
theorem ParentNodeAt.eq_of_ancestorAt_eq {graph : VoteGraph H V} {x y : H} {n m m' : ℕ}
    (hx : ParentNodeAt T graph x m) (hy : ParentNodeAt T graph y m')
    (hmx : m ≤ n) (hnx : n < T.number x) (hmy : m' ≤ n) (hny : n < T.number y)
    (hxy : T.ancestorAt x n = T.ancestorAt y n) : m = m' := by
  have hanc : ∀ i, i ≤ n → T.ancestorAt x i = T.ancestorAt y i := by
    intro i hi
    rw [← T.ancestorAt_ancestorAt x n i hi hnx.le, hxy, T.ancestorAt_ancestorAt y n i hi hny.le]
  rcases lt_trichotomy m m' with hlt | heq | hgt
  · refine absurd ?_ (hx.2.2 m' hlt (by omega))
    rw [hanc m' hmy]
    exact hy.2.1
  · exact heq
  · refine absurd ?_ (hy.2.2 m hgt (by omega))
    rw [← hanc m hmx]
    exact hx.2.1

/-- A node strictly above another lies no lower than the other's parent node. -/
theorem ParentNodeAt.descends_of_descends {graph : VoteGraph H V} {h y : H} {m : ℕ}
    (hpar : ParentNodeAt T graph h m) (hy : y ∈ graph.entries) (hyh : T.Descends y h)
    (hne : y ≠ h) : T.number y ≤ m ∧ T.Descends y (T.ancestorAt h m) := by
  have hlt : T.number y < T.number h :=
    lt_of_le_of_ne hyh.1 fun heq => hne (hyh.eq_of_number_eq heq)
  have hle : T.number y ≤ m := by
    by_contra hgt
    exact hpar.2.2 (T.number y) (by omega) hlt (by rw [hyh.ancestorAt_number]; exact hy)
  refine ⟨hle, hyh.of_descends_of_number_le (BlockTree.descends_ancestorAt hpar.1.le) ?_⟩
  rw [T.number_ancestorAt _ _ hpar.1.le]
  exact hle

namespace Shape

variable {graph : VoteGraph H V} (hs : Shape T graph)
include hs

theorem ancestorBlock_base {e : Entry H V} (he : graph.entries.lookup graph.base = some e)
    (j : ℕ) : e.ancestorBlock j = none := by
  have hanc := hs.base_ancestors e he
  unfold Entry.ancestorBlock
  split_ifs <;> simp [hanc]

theorem ancestorNode_base {e : Entry H V} (he : graph.entries.lookup graph.base = some e) :
    e.ancestorNode = none := by
  simp [Entry.ancestorNode, hs.base_ancestors e he]

theorem baseNumber_le {h : H} (hh : h ∈ graph.entries) : graph.baseNumber ≤ T.number h := by
  rw [← hs.base_number]
  exact (hs.descends_base h hh).1

/-- The only node below the base is the base. -/
theorem eq_base_of_descends {h : H} (hh : h ∈ graph.entries) (hd : T.Descends h graph.base) :
    h = graph.base :=
  hd.eq_of_number_le (hs.descends_base h hh).1

/-- A node other than the base has a parent node, the last of its ancestors. -/
theorem exists_parent {h : H} {e : Entry H V} (he : graph.entries.lookup h = some e)
    (hne : h ≠ graph.base) :
    ∃ m, ParentNodeAt T graph h m ∧ e.ancestors = T.edge h m ∧
      e.ancestorNode = some (T.ancestorAt h m) := by
  obtain ⟨m, hpar, hanc⟩ := hs.edge h e he hne
  exact ⟨m, hpar, hanc, Entry.ancestorNode_of_edge hanc hpar.1⟩

/-- What an entry holds at a number: a node's edge holds a block at `j` only when its parent
node lies at or below `j` and the node above `j`, and then the block is its ancestor at `j`. -/
theorem ancestorBlock_eq_some {h b : H} {e : Entry H V} {j : ℕ}
    (he : graph.entries.lookup h = some e) (hb : e.ancestorBlock j = some b) :
    h ≠ graph.base ∧ ∃ m, ParentNodeAt T graph h m ∧ e.ancestors = T.edge h m ∧
      m ≤ j ∧ j < T.number h ∧ b = T.ancestorAt h j := by
  have hne : h ≠ graph.base := by
    rintro rfl
    rw [hs.ancestorBlock_base he] at hb
    cases hb
  obtain ⟨m, hpar, hanc⟩ := hs.edge h e he hne
  rw [Entry.ancestorBlock_of_edge (hs.number h e he) hanc] at hb
  split_ifs at hb with hspan
  · cases hb
    exact ⟨hne, m, hpar, hanc, hspan.1, hspan.2, rfl⟩

/-- A node whose edge reaches `j` has no other node above it on the way up whose edge reaches
`j`. -/
theorem eq_of_descends_of_ancestorBlock {x y b b' : H} {ex ey : Entry H V} {j : ℕ}
    (hx : graph.entries.lookup x = some ex) (hy : graph.entries.lookup y = some ey)
    (hxb : ex.ancestorBlock j = some b) (hyb : ey.ancestorBlock j = some b')
    (hxy : T.Descends x y) : x = y := by
  by_contra hne
  obtain ⟨-, m, hpar, -, hmj, -⟩ := hs.ancestorBlock_eq_some hy hyb
  obtain ⟨-, -, -, -, -, hjx, -⟩ := hs.ancestorBlock_eq_some hx hxb
  have hxm := (hpar.descends_of_descends (mem_of_lookup hx) hxy hne).1
  omega

/-- Every block from the base's number up to below a node is held by a node on the way down
from it: the edge of the node itself, or of a node below it. -/
theorem exists_ancestorBlock {j : ℕ} (hj : graph.baseNumber ≤ j) :
    ∀ t ∈ graph.entries, j < T.number t →
      ∃ y e, graph.entries.lookup y = some e ∧ T.Descends y t ∧
        e.ancestorBlock j = some (T.ancestorAt t j) := by
  intro t
  -- strong induction on the number of the node, which falls at each step to the parent node
  induction hn : T.number t using Nat.strong_induction_on generalizing t with
  | _ n ih =>
    intro ht hjt
    obtain ⟨e, he⟩ := exists_lookup ht
    have hne : t ≠ graph.base := by
      rintro rfl
      rw [hs.base_number] at hn
      omega
    obtain ⟨m, hpar, hanc⟩ := hs.edge t e he hne
    by_cases hmj : m ≤ j
    · refine ⟨t, e, he, BlockTree.descends_refl t, ?_⟩
      rw [Entry.ancestorBlock_of_edge (hs.number t e he) hanc, if_pos ⟨hmj, by omega⟩]
    · have hmt : m < T.number t := hpar.1
      have hnum : T.number (T.ancestorAt t m) = m := T.number_ancestorAt t m hpar.1.le
      obtain ⟨y, ey, hy, hdesc, hblock⟩ :=
        ih m (by omega) (T.ancestorAt t m) hnum hpar.2.1 (by omega)
      refine ⟨y, ey, hy, hdesc.trans (BlockTree.descends_ancestorAt hpar.1.le), ?_⟩
      rw [hblock, T.ancestorAt_ancestorAt t m j (by omega) hpar.1.le]

/-- The parent node of a node is a node. -/
theorem ancestorNode_mem {c p : H} {ec : Entry H V} (hc : graph.entries.lookup c = some ec)
    (hp : ec.ancestorNode = some p) : p ∈ graph.entries := by
  by_cases hcb : c = graph.base
  · subst hcb
    rw [hs.ancestorNode_base hc] at hp
    cases hp
  · obtain ⟨m, hpar, -, hnode⟩ := hs.exists_parent hc hcb
    rw [hp] at hnode
    cases hnode
    exact hpar.2.1

/-- The parent node of a node is numbered below it. -/
theorem number_lt_of_ancestorNode {c p : H} {ec : Entry H V}
    (hc : graph.entries.lookup c = some ec) (hp : ec.ancestorNode = some p) :
    T.number p < T.number c := by
  have hcb : c ≠ graph.base := by
    rintro rfl
    rw [hs.ancestorNode_base hc] at hp
    cases hp
  obtain ⟨m, hpar, -, hnode⟩ := hs.exists_parent hc hcb
  rw [hp] at hnode
  cases hnode
  rw [T.number_ancestorAt c m hpar.1.le]
  exact hpar.1

/-- A child node of a node is numbered above it. -/
theorem number_lt_of_mem_descendents {p c : H} {e : Entry H V}
    (he : graph.entries.lookup p = some e) (hc : c ∈ e.descendents) : T.number p < T.number c := by
  obtain ⟨ec, hec, hp⟩ := (hs.mem_descendents p e he c).mp hc
  exact hs.number_lt_of_ancestorNode hec hp

/-- A node is numbered at most the highest number of the graph. -/
theorem number_le_max {h : H} {e : Entry H V} (he : graph.entries.lookup h = some e) :
    T.number h ≤ graph.maxNumber := by
  rw [← hs.number h e he]
  exact number_le_maxNumber he

/-- A node whose edge does not hold a block does not have it strictly inside its edge. -/
theorem ancestorAt_ne_of_not_holds {hash y : H} {ey : Entry H V} {m : ℕ}
    (hy : graph.entries.lookup y = some ey) (hanc : ey.ancestors = T.edge y m)
    (hnot : ¬ graph.EdgeHolds hash (T.number hash) y) :
    ∀ i, m ≤ i → i < T.number y → T.ancestorAt y i ≠ hash := by
  intro i hmi hin heq
  apply hnot
  have hi : T.number hash = i := by
    rw [← heq]
    exact T.number_ancestorAt y i hin.le
  refine ⟨ey, hy, ?_⟩
  rw [Entry.ancestorBlock_of_edge (hs.number y ey hy) hanc, hi, if_pos ⟨hmi, hin⟩, heq]

/-- A block strictly above the base has a parent node: its highest ancestor that is a node. -/
theorem exists_parentNodeAt {hash : H} (hdesc : T.Descends graph.base hash)
    (hlt : graph.baseNumber < T.number hash) :
    ∃ j, graph.baseNumber ≤ j ∧ ParentNodeAt T graph hash j := by
  classical
  have hbase : T.ancestorAt hash (T.number hash - 1 - (T.number hash - 1 - graph.baseNumber)) ∈
      graph.entries := by
    have hk : T.number hash - 1 - (T.number hash - 1 - graph.baseNumber) =
        T.number graph.base := by
      rw [hs.base_number]
      omega
    rw [hk, hdesc.ancestorAt_number]
    exact hs.base_mem
  -- the first ancestor that is a node, counting down from the parent
  have hex : ∃ k, T.ancestorAt hash (T.number hash - 1 - k) ∈ graph.entries := ⟨_, hbase⟩
  have hle : Nat.find hex ≤ T.number hash - 1 - graph.baseNumber := Nat.find_min' hex hbase
  refine ⟨T.number hash - 1 - Nat.find hex, by omega, by omega, Nat.find_spec hex, ?_⟩
  intro i hji hin hi
  have hmin := @Nat.find_min _ _ hex (T.number hash - 1 - i) (by omega)
  have hidx : T.number hash - 1 - (T.number hash - 1 - i) = i := by omega
  rw [hidx] at hmin
  exact hmin hi

end Shape

/-! ## `find_containing_nodes` -/

variable (T) in
/-- What the walk of `find_containing_nodes` has gathered: nodes whose edge holds the block,
once each and all visited, and every node that holds it below a visited node, except those still
ahead of the walk at `cur`, below which the walk has not yet come. -/
structure WalkInv (graph : VoteGraph H V) (hash : H) (number : ℕ) (cur : Option H)
    (acc : List H × List H) : Prop where
  sound : ∀ x ∈ acc.1, graph.EdgeHolds hash number x
  nodup : acc.1.Nodup
  visited : ∀ x ∈ acc.1, x ∈ acc.2
  complete : ∀ z ∈ acc.2, ∀ x, graph.EdgeHolds hash number x → T.Descends x z →
    x ∈ acc.1 ∨ ∃ y, cur = some y ∧ T.Descends x y ∧ T.number y < T.number z

namespace WalkInv

variable {graph : VoteGraph H V} {hash : H} {number : ℕ} {acc : List H × List H}

theorem pending (h : WalkInv T graph hash number none acc) (y : H) :
    WalkInv T graph hash number (some y) acc := by
  refine ⟨h.sound, h.nodup, h.visited, fun z hz x hx hxz => ?_⟩
  rcases h.complete z hz x hx hxz with hmem | ⟨_, hnone, -⟩
  · exact .inl hmem
  · cases hnone

/-- A walk that comes to a visited node stops: whatever was pending below the node was found
when the node was visited. -/
theorem resolve {y : H} (h : WalkInv T graph hash number (some y) acc) (hy : y ∈ acc.2) :
    WalkInv T graph hash number none acc := by
  refine ⟨h.sound, h.nodup, h.visited, fun z hz x hx hxz => .inl ?_⟩
  rcases h.complete z hz x hx hxz with hmem | ⟨y', hy', hxy, -⟩
  · exact hmem
  · cases hy'
    rcases h.complete y hy x hx hxy with hmem | ⟨y'', hy'', -, hlt⟩
    · exact hmem
    · cases hy''
      omega

/-- A node that holds the block below a node visited so far, or below the node the walk has
come to, was found, or lies below the node the walk has come to. -/
theorem visit {y z x : H} (h : WalkInv T graph hash number (some y) acc)
    (hz : z ∈ acc.2 ++ [y]) (hx : graph.EdgeHolds hash number x) (hxz : T.Descends x z) :
    x ∈ acc.1 ∨ (T.Descends x y ∧ T.number y ≤ T.number z) := by
  rcases List.mem_append.mp hz with hz | hz
  · rcases h.complete z hz x hx hxz with hmem | ⟨y', hy', hxy, hlt⟩
    · exact .inl hmem
    · cases hy'
      exact .inr ⟨hxy, hlt.le⟩
  · rw [List.mem_singleton.mp hz] at hxz ⊢
    exact .inr ⟨hxz, le_rfl⟩

theorem visited_append {y : H} (h : WalkInv T graph hash number (some y) acc) :
    ∀ x ∈ acc.1, x ∈ acc.2 ++ [y] :=
  fun x hx => List.mem_append_left _ (h.visited x hx)

/-- The walk finds the node it is at when the node's edge holds the block: no other node that
holds it lies below. -/
theorem found (hs : Shape T graph) {y : H} {ey : Entry H V}
    (h : WalkInv T graph hash number (some y) acc) (hyv : y ∉ acc.2)
    (hy : graph.entries.lookup y = some ey) (hb : ey.ancestorBlock number = some hash) :
    WalkInv T graph hash number none (acc.1 ++ [y], acc.2 ++ [y]) := by
  refine ⟨?_, ?_, ?_, ?_⟩
  · intro x hx
    rcases List.mem_append.mp hx with hx | hx
    · exact h.sound x hx
    · rw [List.mem_singleton.mp hx]
      exact ⟨ey, hy, hb⟩
  · refine List.nodup_append.mpr ⟨h.nodup, List.nodup_singleton y, ?_⟩
    intro x hx y' hy'
    rw [List.mem_singleton.mp hy']
    rintro rfl
    exact hyv (h.visited x hx)
  · intro x hx
    rcases List.mem_append.mp hx with hx | hx
    · exact h.visited_append x hx
    · exact List.mem_append_right _ hx
  · intro z hz x hx hxz
    left
    rcases h.visit hz hx hxz with hmem | ⟨hxy, -⟩
    · exact List.mem_append_left _ hmem
    · obtain ⟨ex, hex, hxb⟩ := hx
      rw [hs.eq_of_descends_of_ancestorBlock hex hy hxb hb hxy]
      exact List.mem_append_right _ (List.mem_singleton_self y)

/-- The walk stops at a node whose edge holds another block at the number: no node that holds
the block lies below it. -/
theorem other (hs : Shape T graph) {y b : H} {ey : Entry H V}
    (h : WalkInv T graph hash number (some y) acc)
    (hy : graph.entries.lookup y = some ey) (hb : ey.ancestorBlock number = some b)
    (hne : b ≠ hash) : WalkInv T graph hash number none (acc.1, acc.2 ++ [y]) := by
  refine ⟨h.sound, h.nodup, h.visited_append, fun z hz x hx hxz => .inl ?_⟩
  rcases h.visit hz hx hxz with hmem | ⟨hxy, -⟩
  · exact hmem
  · obtain ⟨ex, hex, hxb⟩ := hx
    have hxy' := hs.eq_of_descends_of_ancestorBlock hex hy hxb hb hxy
    subst hxy'
    rw [hex] at hy
    cases hy
    rw [hxb] at hb
    exact absurd (Option.some.inj hb).symm hne

/-- The walk passes a node whose edge does not reach the number on to its parent node: what
holds the block below the node lies below the parent. -/
theorem pass (hs : Shape T graph) {y p : H} {ey : Entry H V}
    (h : WalkInv T graph hash number (some y) acc)
    (hy : graph.entries.lookup y = some ey) (hb : ey.ancestorBlock number = none)
    (hp : ey.ancestorNode = some p) :
    WalkInv T graph hash number (some p) (acc.1, acc.2 ++ [y]) ∧ p ∈ graph.entries ∧
      T.number p < T.number y := by
  have hne : y ≠ graph.base := by
    rintro rfl
    rw [hs.ancestorNode_base hy] at hp
    cases hp
  obtain ⟨m, hpar, -, hnode⟩ := hs.exists_parent hy hne
  rw [hp] at hnode
  cases hnode
  have hmy : m < T.number y := hpar.1
  have hpm : T.number (T.ancestorAt y m) = m := T.number_ancestorAt y m hpar.1.le
  refine ⟨⟨h.sound, h.nodup, h.visited_append, fun z hz x hx hxz => ?_⟩, hpar.2.1, by omega⟩
  rcases h.visit hz hx hxz with hmem | ⟨hxy, hyz⟩
  · exact .inl hmem
  · have hxne : x ≠ y := by
      rintro rfl
      obtain ⟨ex, hex, hxb⟩ := hx
      rw [hex] at hy
      cases hy
      rw [hxb] at hb
      cases hb
    obtain ⟨ex, hex, -⟩ := hx
    have hxp := (hpar.descends_of_descends (mem_of_lookup hex) hxy hxne).2
    exact .inr ⟨_, rfl, hxp, by omega⟩

/-- The walk stops at the base, which holds nothing; below it there is no other node. -/
theorem base (hs : Shape T graph) {y : H} {ey : Entry H V}
    (h : WalkInv T graph hash number (some y) acc)
    (hy : graph.entries.lookup y = some ey) (hp : ey.ancestorNode = none) :
    WalkInv T graph hash number none (acc.1, acc.2 ++ [y]) := by
  have hyb : y = graph.base := by
    by_contra hne
    obtain ⟨m, -, -, hnode⟩ := hs.exists_parent hy hne
    rw [hp] at hnode
    cases hnode
  refine ⟨h.sound, h.nodup, h.visited_append, fun z hz x hx hxz => .inl ?_⟩
  rcases h.visit hz hx hxz with hmem | ⟨hxy, -⟩
  · exact hmem
  · obtain ⟨ex, hex, hxb⟩ := hx
    rw [hyb] at hxy
    have hxb' := hs.eq_base_of_descends (mem_of_lookup hex) hxy
    subst hxb'
    rw [hs.ancestorBlock_base hex] at hxb
    cases hxb

end WalkInv

section Walk

variable {graph : VoteGraph H V} {hash : H} {number : ℕ}

/-- A walk of `find_containing_nodes` from a node, with fuel above the node's number, visits
the node, and every node that holds the block below a node visited so far is found. -/
theorem walkHead_spec (hs : Shape T graph) :
    ∀ (fuel : ℕ) (y : H) (acc : List H × List H), y ∈ graph.entries → T.number y < fuel →
      WalkInv T graph hash number (some y) acc →
      WalkInv T graph hash number none (graph.walkHead hash number fuel y acc) ∧
        y ∈ (graph.walkHead hash number fuel y acc).2 ∧
        acc.2 ⊆ (graph.walkHead hash number fuel y acc).2 := by
  intro fuel
  -- induction on the fuel: each turn moves to the parent node, of a lower number
  induction fuel with
  | zero =>
    intro y acc _ hfuel
    omega
  | succ fuel ih =>
    rintro y ⟨containing, visited⟩ hy hfuel hinv
    obtain ⟨ey, hey⟩ := exists_lookup hy
    by_cases hvis : y ∈ visited
    · have hstep : graph.walkHead hash number (fuel + 1) y (containing, visited) =
          (containing, visited) := by
        simp [walkHead, hey, hvis]
      rw [hstep]
      exact ⟨hinv.resolve hvis, hvis, List.Subset.refl _⟩
    · cases hb : ey.ancestorBlock number with
      | some b =>
        by_cases hbh : b = hash
        · have hstep : graph.walkHead hash number (fuel + 1) y (containing, visited) =
              (containing ++ [y], visited ++ [y]) := by
            simp [walkHead, hey, hvis, Entry.inDirectAncestry, hb, hbh]
          rw [hstep]
          rw [hbh] at hb
          exact ⟨hinv.found hs hvis hey hb, by simp, List.subset_append_left _ _⟩
        · have hstep : graph.walkHead hash number (fuel + 1) y (containing, visited) =
              (containing, visited ++ [y]) := by
            simp [walkHead, hey, hvis, Entry.inDirectAncestry, hb, hbh]
          rw [hstep]
          exact ⟨hinv.other hs hey hb hbh, by simp, List.subset_append_left _ _⟩
      | none =>
        cases hp : ey.ancestorNode with
        | some p =>
          have hstep : graph.walkHead hash number (fuel + 1) y (containing, visited) =
              graph.walkHead hash number fuel p (containing, visited ++ [y]) := by
            simp [walkHead, hey, hvis, Entry.inDirectAncestry, hb, hp]
          rw [hstep]
          obtain ⟨hinv', hpmem, hlt⟩ := hinv.pass hs hey hb hp
          obtain ⟨hwalk, -, hsub⟩ := ih p _ hpmem (by omega) hinv'
          exact ⟨hwalk, hsub (by simp), fun x hx => hsub (List.mem_append_left _ hx)⟩
        | none =>
          have hstep : graph.walkHead hash number (fuel + 1) y (containing, visited) =
              (containing, visited ++ [y]) := by
            simp [walkHead, hey, hvis, Entry.inDirectAncestry, hb, hp]
          rw [hstep]
          exact ⟨hinv.base hs hey hp, by simp, List.subset_append_left _ _⟩

/-- The walks from every head, one after another, visit every head. -/
theorem foldl_walkHead_spec (hs : Shape T graph) :
    ∀ (heads : List H) (acc : List H × List H), (∀ l ∈ heads, l ∈ graph.entries) →
      WalkInv T graph hash number none acc →
      WalkInv T graph hash number none
          (heads.foldl (fun acc head => graph.walkHead hash number graph.fuel head acc) acc) ∧
        acc.2 ⊆ (heads.foldl (fun acc head => graph.walkHead hash number graph.fuel head acc)
          acc).2 ∧
        ∀ l ∈ heads,
          l ∈ (heads.foldl (fun acc head => graph.walkHead hash number graph.fuel head acc)
            acc).2 := by
  intro heads
  induction heads with
  | nil =>
    intro acc _ hacc
    exact ⟨hacc, List.Subset.refl _, by simp⟩
  | cons l heads ih =>
    intro acc hheads hacc
    rw [List.foldl_cons]
    have hl : l ∈ graph.entries := hheads l List.mem_cons_self
    obtain ⟨el, hel⟩ := exists_lookup hl
    have hfuel : T.number l < graph.fuel := by
      have := number_le_maxNumber hel
      rw [hs.number l el hel] at this
      unfold fuel
      omega
    obtain ⟨hwalk, hvis, hsub⟩ := walkHead_spec hs graph.fuel l acc hl hfuel (hacc.pending l)
    obtain ⟨hrest, hsub', hall⟩ :=
      ih _ (fun l' hl' => hheads l' (List.mem_cons_of_mem _ hl')) hwalk
    refine ⟨hrest, List.Subset.trans hsub hsub', fun l' hl' => ?_⟩
    rcases List.mem_cons.mp hl' with rfl | hl'
    · exact hsub' hvis
    · exact hall l' hl'

/-- **`find_containing_nodes`** of a block that is not a node lists, once each, exactly the
nodes whose edge holds the block at the number. -/
theorem findContainingNodes_spec (hs : Shape T graph) (hhash : hash ∉ graph.entries) :
    ∃ containing, graph.findContainingNodes hash number = some containing ∧
      containing.Nodup ∧ ∀ x, x ∈ containing ↔ graph.EdgeHolds hash number x := by
  have hheads : ∀ l ∈ graph.heads, l ∈ graph.entries := by
    intro l hl
    obtain ⟨e, he, -⟩ := (hs.mem_heads l).mp hl
    exact mem_of_lookup he
  have hinit : WalkInv T graph hash number none ([], []) := ⟨by simp, List.nodup_nil, by simp, by simp⟩
  obtain ⟨hinv, -, hall⟩ := foldl_walkHead_spec hs graph.heads ([], []) hheads hinit
  refine ⟨_, by rw [findContainingNodes, if_neg hhash], hinv.nodup,
    fun x => ⟨hinv.sound x, fun hx => ?_⟩⟩
  -- a node that holds the block lies below a head, and every head was visited
  obtain ⟨l, hl, hxl⟩ := hs.heads_cover x hx.mem
  rcases hinv.complete l (hall l hl) x hx hxl with hmem | ⟨_, hnone, -⟩
  · exact hmem
  · cases hnone

end Walk

/-! ## `append` -/

/-- The first item of an enumerated list that passes a test: the item at index `i` passes and
none before it does. -/
theorem find?_zipIdx_eq_some {α : Type} {l : List α} {p : α × ℕ → Bool} {i : ℕ} {x : α}
    (hx : l[i]? = some x) (hpx : p (x, i) = true)
    (hmin : ∀ k < i, ∀ y, l[k]? = some y → p (y, k) = false) :
    l.zipIdx.find? p = some (x, i) := by
  obtain ⟨hi, hxi⟩ := List.getElem?_eq_some_iff.mp hx
  rw [List.find?_eq_some_iff_getElem]
  refine ⟨hpx, i, by rw [List.length_zipIdx]; exact hi, ?_, ?_⟩
  · rw [List.getElem_zipIdx]
    simp [hxi]
  · intro k hk
    rw [List.getElem_zipIdx]
    have hkl : k < l.length := by omega
    simp [hmin k hk l[k] (List.getElem?_eq_getElem hkl)]

section Append

variable {graph : VoteGraph H V} {hash : H}

/-- **`append`** of a block strictly above the base and not a node hangs it off its parent
node, with the edge down to it, and the block takes the parent's place among the heads. -/
theorem append_eq (hs : Shape T graph) {chain : Chain H} (hchain : chain.Lawful T)
    (ops : VoteOps V) (number : ℕ) {j : ℕ} {ea : Entry H V} (hhash : hash ∉ graph.entries)
    (hdesc : T.Descends graph.base hash) (hjb : graph.baseNumber ≤ j)
    (hj : ParentNodeAt T graph hash j)
    (hea : graph.entries.lookup (T.ancestorAt hash j) = some ea) :
    graph.append ops hash number chain = .ok (.ok
      { (graph.setEntry (T.ancestorAt hash j)
          { ea with descendents := ea.descendents ++ [hash] }).setEntry hash
          ⟨number, T.edge hash j, [], ops.default⟩ with
        heads := insertHead (graph.heads.erase (T.ancestorAt hash j)) hash }) := by
  have hne : hash ≠ graph.base := fun h => hhash (h ▸ hs.base_mem)
  have hlt : T.number graph.base < T.number hash :=
    lt_of_le_of_ne hdesc.1 fun h => hne (hdesc.eq_of_number_eq h).symm
  have hbase := hs.base_number
  have hjn : j < T.number hash := hj.1
  have hanc : chain.ancestry graph.base hash = .ok (T.edge hash (T.number graph.base + 1)) := by
    rw [hchain, if_pos ⟨hlt, hdesc.ancestorAt_number⟩]
  -- the ancestry with the base pushed is the edge down to the base
  have hpush : T.edge hash (T.number graph.base + 1) ++ [graph.base] =
      T.edge hash (T.number graph.base) := by
    have h := BlockTree.edge_append_ancestorAt hlt
    rwa [hdesc.ancestorAt_number] at h
  have hget : (T.edge hash (T.number graph.base))[T.number hash - 1 - j]? =
      some (T.ancestorAt hash j) := by
    rw [BlockTree.getElem?_edge, if_pos (by omega)]
    congr 2
    omega
  have htake : (T.edge hash (T.number graph.base)).take (T.number hash - 1 - j + 1) =
      T.edge hash j := by
    rw [show T.number hash - 1 - j + 1 = T.number hash - j by omega]
    exact BlockTree.take_edge (by omega) hjn.le
  have hget' : (T.edge hash (T.number graph.base) ++ [graph.base])[T.number hash - 1 - j]? =
      some (T.ancestorAt hash j) := by
    rw [List.getElem?_append_left (by rw [BlockTree.length_edge]; omega)]
    exact hget
  unfold append
  rw [hanc]
  simp only [hpush]
  rw [find?_zipIdx_eq_some hget' ?_ ?_]
  · simp only [hea, hget, htake]
    rfl
  · simpa using hj.2.1
  · intro k hk y hy
    rw [List.getElem?_append_left (by rw [BlockTree.length_edge]; omega),
      BlockTree.getElem?_edge, if_pos (by omega)] at hy
    cases hy
    simpa using hj.2.2 (T.number hash - 1 - k) (by omega) (by omega)

/-- The shape of a graph with a new leaf: the block, not a node and held by no node's edge,
hangs off its parent node `ancestorAt hash j` with the edge down to it, and takes the parent's
place among the heads. -/
theorem Shape.addLeaf (hs : Shape T graph) {graph' : VoteGraph H V} {j : ℕ} {ea : Entry H V}
    (v : V) (hhash : hash ∉ graph.entries) (hdesc : T.Descends graph.base hash)
    (hj : ParentNodeAt T graph hash j)
    (hea : graph.entries.lookup (T.ancestorAt hash j) = some ea)
    (hnone : ∀ x, ¬ graph.EdgeHolds hash (T.number hash) x)
    (hlook : ∀ k, graph'.entries.lookup k =
      if k = hash then some ⟨T.number hash, T.edge hash j, [], v⟩
      else if k = T.ancestorAt hash j then some { ea with descendents := ea.descendents ++ [hash] }
      else graph.entries.lookup k)
    (hheads : graph'.heads = insertHead (graph.heads.erase (T.ancestorAt hash j)) hash)
    (hbase : graph'.base = graph.base) (hbn : graph'.baseNumber = graph.baseNumber) :
    Shape T graph' := by
  have haE : T.ancestorAt hash j ∈ graph.entries := hj.2.1
  have hane : T.ancestorAt hash j ≠ hash := fun h => hhash (h ▸ haE)
  have hjn : j < T.number hash := hj.1
  have hmem : ∀ k, k ∈ graph'.entries ↔ k = hash ∨ k ∈ graph.entries := by
    intro k
    constructor
    · intro hk
      obtain ⟨e, he⟩ := exists_lookup hk
      rw [hlook] at he
      split_ifs at he with h1 h2
      · exact .inl h1
      · exact .inr (h2 ▸ haE)
      · exact .inr (mem_of_lookup he)
    · rintro (rfl | hk)
      · exact mem_of_lookup (by rw [hlook, if_pos rfl])
      · obtain ⟨e, he⟩ := exists_lookup hk
        have hkh : k ≠ hash := fun h => hhash (h ▸ hk)
        by_cases hka : k = T.ancestorAt hash j
        · exact mem_of_lookup (by rw [hlook, if_neg hkh, if_pos hka])
        · exact mem_of_lookup (by rw [hlook, if_neg hkh, if_neg hka, he])
  -- a node of the old graph is not the block
  have hne_of_node : ∀ c p, (∃ ec, graph.entries.lookup c = some ec ∧ ec.ancestorNode = some p) →
      c ≠ hash := by
    rintro c p ⟨ec, hc, -⟩ rfl
    exact hhash (mem_of_lookup hc)
  -- the parent nodes of the new graph: the block's is its old parent node, the others unchanged
  have hnode : ∀ c p,
      (∃ ec, graph'.entries.lookup c = some ec ∧ ec.ancestorNode = some p) ↔
        (c = hash ∧ p = T.ancestorAt hash j) ∨
          (∃ ec, graph.entries.lookup c = some ec ∧ ec.ancestorNode = some p) := by
    intro c p
    rw [hlook]
    split_ifs with h1 h2
    · subst h1
      have hn : (⟨T.number c, T.edge c j, [], v⟩ : Entry H V).ancestorNode =
          some (T.ancestorAt c j) := Entry.ancestorNode_of_edge rfl hjn
      constructor
      · rintro ⟨ec, hec, hp⟩
        cases hec
        rw [hn] at hp
        exact .inl ⟨rfl, (Option.some.inj hp).symm⟩
      · rintro (⟨-, rfl⟩ | hold)
        · exact ⟨_, rfl, hn⟩
        · exact absurd rfl (hne_of_node c p hold)
    · subst h2
      constructor
      · rintro ⟨ec, hec, hp⟩
        cases hec
        exact .inr ⟨ea, hea, hp⟩
      · rintro (⟨hch, -⟩ | ⟨ec, hc, hp⟩)
        · exact absurd hch hane
        · rw [hea] at hc
          cases hc
          exact ⟨_, rfl, hp⟩
    · simp only [h1, false_and, false_or]
  -- an old node keeps its parent node
  have hold_edge : ∀ k e, graph.entries.lookup k = some e → k ≠ graph.base →
      ∃ m, ParentNodeAt T graph' k m ∧ e.ancestors = T.edge k m := by
    intro k e he hkb
    obtain ⟨m, hpar, hanc⟩ := hs.edge k e he hkb
    exact ⟨m, hpar.of_entries hmem fun i hmi hin =>
      hs.ancestorAt_ne_of_not_holds he hanc (hnone k) i hmi.le hin, hanc⟩
  refine ⟨?_, ?_, ?_, ?_, ?_, ?_, ?_, ?_, ?_, ?_, ?_⟩
  · -- base_mem
    rw [hbase]
    exact (hmem _).mpr (.inr hs.base_mem)
  · -- base_number
    rw [hbase, hbn]
    exact hs.base_number
  · -- base_ancestors
    intro e he
    rw [hbase, hlook] at he
    split_ifs at he with h1 h2
    · exact absurd (h1 ▸ hs.base_mem) hhash
    · cases he
      rw [← h2] at hea
      exact hs.base_ancestors ea hea
    · exact hs.base_ancestors e he
  · -- number
    intro k e he
    rw [hlook] at he
    split_ifs at he with h1 h2
    · cases he
      rw [h1]
    · cases he
      rw [h2]
      exact hs.number _ ea hea
    · exact hs.number k e he
  · -- descends_base
    intro k hk
    rw [hbase]
    rcases (hmem k).mp hk with rfl | hk
    · exact hdesc
    · exact hs.descends_base k hk
  · -- edge
    intro k e he hkb
    rw [hbase] at hkb
    rw [hlook] at he
    split_ifs at he with h1 h2
    · cases he
      subst h1
      refine ⟨j, hj.of_entries hmem fun i _ hin heq => ?_, rfl⟩
      have hi := T.number_ancestorAt k i hin.le
      rw [heq] at hi
      omega
    · cases he
      rw [h2] at hkb ⊢
      exact hold_edge _ ea hea hkb
    · exact hold_edge k e he hkb
  · -- descendents_nodup
    intro p e he
    rw [hlook] at he
    split_ifs at he with h1 h2
    · cases he
      exact List.nodup_nil
    · cases he
      refine List.nodup_append.mpr ⟨hs.descendents_nodup _ ea hea, List.nodup_singleton hash, ?_⟩
      intro c hc c' hc'
      rw [List.mem_singleton.mp hc']
      exact hne_of_node c _ ((hs.mem_descendents _ ea hea c).mp hc)
    · exact hs.descendents_nodup p e he
  · -- mem_descendents
    intro p e he c
    rw [hnode c p]
    rw [hlook] at he
    split_ifs at he with h1 h2
    · cases he
      subst h1
      simp only [List.not_mem_nil, false_iff, not_or, not_and]
      exact ⟨fun _ h => hane h.symm, fun ⟨ec, hc, hp⟩ => hhash (hs.ancestorNode_mem hc hp)⟩
    · cases he
      subst h2
      rw [List.mem_append, List.mem_singleton, hs.mem_descendents _ ea hea c]
      simp only [and_true]
      exact Or.comm
    · rw [hs.mem_descendents p e he c]
      simp only [h2, and_false, false_or]
  · -- heads_nodup
    rw [hheads]
    exact nodup_insertHead (hs.heads_nodup.erase _) hash
  · -- mem_heads
    intro l
    rw [hheads, mem_insertHead, hs.heads_nodup.mem_erase_iff, hs.mem_heads l, hlook]
    split_ifs with h1 h2
    · subst h1
      simp
    · subst h2
      simp [hane]
    · simp [h1, h2]
  · -- heads_cover
    intro k hk
    rw [hheads]
    rcases (hmem k).mp hk with rfl | hk
    · exact ⟨k, by simp, BlockTree.descends_refl k⟩
    · obtain ⟨l, hl, hkl⟩ := hs.heads_cover k hk
      by_cases hla : l = T.ancestorAt hash j
      · refine ⟨hash, by simp, hkl.trans ?_⟩
        rw [hla]
        exact BlockTree.descends_ancestorAt hjn.le
      · exact ⟨l, by simp [hs.heads_nodup.mem_erase_iff, hla, hl], hkl⟩

section Votes

variable {M : Type} [SemilatticeSup M] [OrderBot M] {α : V → M} {Good : V → Prop}
  {votes : List (H × V)}

/-- A graph of the right shape that adds one node, with the join of the votes above it, and
keeps the cumulative votes of the old nodes, keeps the invariant. -/
theorem Inv.of_newNode (hinv : Inv T α Good graph votes) {graph' : VoteGraph H V}
    {e : Entry H V} (hs' : Shape T graph')
    (hmem : ∀ k, k ∈ graph'.entries ↔ k = hash ∨ k ∈ graph.entries)
    (hnew : graph'.entries.lookup hash = some e)
    (hα : α e.cumulativeVote = joinedVote T α votes hash) (hgood : Good e.cumulativeVote)
    (hcum : ∀ k e', k ≠ hash → graph'.entries.lookup k = some e' →
      ∃ e, graph.entries.lookup k = some e ∧ e'.cumulativeVote = e.cumulativeVote) :
    Inv T α Good graph' votes := by
  refine ⟨hs', fun t v htv => (hmem t).mpr (.inr (hinv.votes_mem t v htv)), ?_, ?_⟩
  · intro k e' hk
    by_cases hkh : k = hash
    · subst hkh
      rw [hnew] at hk
      cases hk
      exact hα
    · obtain ⟨e0, he0, hcv⟩ := hcum k e' hkh hk
      rw [hcv]
      exact hinv.cumulative k e0 he0
  · intro k e' hk
    by_cases hkh : k = hash
    · subst hkh
      rw [hnew] at hk
      cases hk
      exact hgood
    · obtain ⟨e0, he0, hcv⟩ := hcum k e' hkh hk
      rw [hcv]
      exact hinv.good k e0 he0

/-- No vote was cast on or above a block that no node's edge holds and that is not a node: a
vote above it would be on a node whose way down passes the block. -/
theorem joinedVote_eq_bot (hinv : Inv T α Good graph votes) (hhash : hash ∉ graph.entries)
    (hdesc : T.Descends graph.base hash) (hnone : ∀ x, ¬ graph.EdgeHolds hash (T.number hash) x) :
    joinedVote T α votes hash = ⊥ := by
  refine le_antisymm ((joinedVote_le_iff votes hash ⊥).mpr fun t v htv hht => ?_) bot_le
  have ht := hinv.votes_mem t v htv
  have hlt : T.number hash < T.number t :=
    lt_of_le_of_ne hht.1 fun h => hhash (hht.eq_of_number_eq h ▸ ht)
  have hbase : graph.baseNumber ≤ T.number hash := by
    rw [← hinv.base_number]
    exact hdesc.1
  obtain ⟨y, ey, hy, -, hyb⟩ := hinv.exists_ancestorBlock hbase t ht hlt
  rw [hht.ancestorAt_number] at hyb
  exact absurd ⟨ey, hy, hyb⟩ (hnone y)

/-- **`append`** of a block above the base that is neither a node nor held by a node's edge
succeeds and keeps the invariant; the block is then a node. -/
theorem append_inv (hinv : Inv T α Good graph votes) {chain : Chain H} (hchain : chain.Lawful T)
    {ops : VoteOps V} (hops : ops.Lawful α Good) (hhash : hash ∉ graph.entries)
    (hdesc : T.Descends graph.base hash) (hnone : ∀ x, ¬ graph.EdgeHolds hash (T.number hash) x) :
    ∃ graph', graph.append ops hash (T.number hash) chain = .ok (.ok graph') ∧
      Inv T α Good graph' votes ∧ hash ∈ graph'.entries ∧ graph'.base = graph.base := by
  have hs := hinv.toShape
  have hlt : graph.baseNumber < T.number hash := by
    rw [← hs.base_number]
    exact lt_of_le_of_ne hdesc.1 fun h => hhash (hdesc.eq_of_number_eq h ▸ hs.base_mem)
  obtain ⟨j, hjb, hj⟩ := hs.exists_parentNodeAt hdesc hlt
  obtain ⟨ea, hea⟩ := exists_lookup hj.2.1
  refine ⟨_, append_eq hs hchain ops (T.number hash) hhash hdesc hjb hj hea, ?_, by simp, rfl⟩
  set graph' : VoteGraph H V :=
    { (graph.setEntry (T.ancestorAt hash j)
        { ea with descendents := ea.descendents ++ [hash] }).setEntry hash
        ⟨T.number hash, T.edge hash j, [], ops.default⟩ with
      heads := insertHead (graph.heads.erase (T.ancestorAt hash j)) hash } with hgraph
  have hlook : ∀ k, graph'.entries.lookup k =
        if k = hash then some ⟨T.number hash, T.edge hash j, [], ops.default⟩
        else if k = T.ancestorAt hash j then
          some { ea with descendents := ea.descendents ++ [hash] }
        else graph.entries.lookup k := by
    intro k
    split_ifs with h1 h2
    · rw [h1, lookup_setEntry_self]
    · rw [lookup_setEntry_ne _ _ h1, h2, lookup_setEntry_self]
    · rw [lookup_setEntry_ne _ _ h1, lookup_setEntry_ne _ _ h2]
  have hs' := hs.addLeaf ops.default hhash hdesc hj hea hnone hlook rfl rfl rfl
  refine hinv.of_newNode hs' (fun k => ?_) (by rw [hlook, if_pos rfl]) ?_ hops.default_good ?_
  · simp only [hgraph, mem_setEntry]
    constructor
    · rintro (rfl | rfl | hk)
      · exact .inl rfl
      · exact .inr hj.2.1
      · exact .inr hk
    · rintro (rfl | hk)
      · exact .inl rfl
      · exact .inr (.inr hk)
  · rw [hops.α_default, joinedVote_eq_bot hinv hhash hdesc hnone]
  · intro k e' hk he'
    rw [hlook, if_neg hk] at he'
    split_ifs at he' with h2
    · cases he'
      exact ⟨ea, h2 ▸ hea, rfl⟩
    · exact ⟨e', he', rfl⟩

end Votes

end Append

/-! ## `introduce_branch` -/

section Branch

variable {M : Type} [SemilatticeSup M] [OrderBot M] {α : V → M} {Good : V → Prop}
  {ops : VoteOps V} {number : ℕ} {graph : VoteGraph H V} {hash : H}

theorem introduceBranchStep_none {G : VoteGraph H V} {x : H} {ex : Entry H V} {c : V}
    (hx : G.entries.lookup x = some ex) (hle : number ≤ ex.number)
    (hc : ops.addAssign ops.default ex.cumulativeVote = .ok c) :
    introduceBranchStep ops number (G, none) x =
      .ok (G.setEntry x { ex with ancestors := ex.ancestors.take (ex.number - number) },
        some (⟨number, ex.ancestors.drop (ex.number - number), [x], c⟩, ex.ancestorNode)) := by
  simp [introduceBranchStep, hx, hc, not_lt.mpr hle]

theorem introduceBranchStep_some {G : VoteGraph H V} {x : H} {ex ne : Entry H V}
    {prev : Option H} {c : V} (hx : G.entries.lookup x = some ex) (hle : number ≤ ex.number)
    (hc : ops.addAssign ne.cumulativeVote ex.cumulativeVote = .ok c) :
    introduceBranchStep ops number (G, some (ne, prev)) x =
      .ok (G.setEntry x { ex with ancestors := ex.ancestors.take (ex.number - number) },
        some ({ ne with descendents := ne.descendents ++ [x], cumulativeVote := c }, prev)) := by
  simp [introduceBranchStep, hx, hc, not_lt.mpr hle]

/-- The turns of `introduce_branch`'s fold after the first: each cuts the edge of its node and
adds the node and its vote to the new entry. -/
theorem foldlM_introduceBranchStep (hops : ops.Lawful α Good) :
    ∀ (rest : List H) (G : VoteGraph H V) (ne : Entry H V) (prev : Option H), rest.Nodup →
      Good ne.cumulativeVote →
      (∀ x ∈ rest, ∃ ex, G.entries.lookup x = some ex ∧ number ≤ ex.number ∧
        Good ex.cumulativeVote) →
      ∃ G' c, rest.foldlM (introduceBranchStep ops number) (G, some (ne, prev)) =
          .ok (G', some ({ ne with descendents := ne.descendents ++ rest, cumulativeVote := c },
            prev)) ∧
        Good c ∧
        (∀ b, α c ≤ b ↔ α ne.cumulativeVote ≤ b ∧
          ∀ x ∈ rest, ∀ ex, G.entries.lookup x = some ex → α ex.cumulativeVote ≤ b) ∧
        (∀ y, G'.entries.lookup y =
          if y ∈ rest then
            (G.entries.lookup y).map fun e => { e with ancestors := e.ancestors.take (e.number - number) }
          else G.entries.lookup y) ∧
        G'.heads = G.heads ∧ G'.base = G.base ∧ G'.baseNumber = G.baseNumber := by
  intro rest
  induction rest with
  | nil =>
    intro G ne prev _ hne _
    refine ⟨G, ne.cumulativeVote, by simp only [List.foldlM_nil, List.append_nil]; rfl, hne,
      fun b => by simp, fun y => by simp, rfl, rfl, rfl⟩
  | cons x rest ih =>
    intro G ne prev hnodup hne hrest
    obtain ⟨hxrest, hnodup'⟩ := List.nodup_cons.mp hnodup
    obtain ⟨ex, hx, hle, hgx⟩ := hrest x List.mem_cons_self
    obtain ⟨c1, hc1, hg1, hα1⟩ := hops.addAssign_ok _ _ hne hgx
    -- after the first turn the rest of the nodes still have their old entries
    have hrest' : ∀ y ∈ rest, ∃ ey, (G.setEntry x { ex with
        ancestors := ex.ancestors.take (ex.number - number) }).entries.lookup y = some ey ∧
        number ≤ ey.number ∧ Good ey.cumulativeVote := by
      intro y hy
      have hyx : y ≠ x := fun h => hxrest (h ▸ hy)
      rw [lookup_setEntry_ne _ _ hyx]
      exact hrest y (List.mem_cons_of_mem _ hy)
    obtain ⟨G', c, hfold, hgc, hαc, hlook, hheads, hbase, hbn⟩ :=
      ih _ { ne with descendents := ne.descendents ++ [x], cumulativeVote := c1 } prev hnodup' hg1
        hrest'
    refine ⟨G', c, ?_, hgc, ?_, ?_, hheads, hbase, hbn⟩
    · rw [List.foldlM_cons, introduceBranchStep_some hx hle hc1]
      simpa using hfold
    · intro b
      rw [hαc b, hα1, sup_le_iff, and_assoc]
      apply and_congr_right'
      constructor
      · rintro ⟨hbx, hby⟩ y hy ey hey
        rcases List.mem_cons.mp hy with rfl | hy
        · rw [hx] at hey
          cases hey
          exact hbx
        · have hyx : y ≠ x := fun h => hxrest (h ▸ hy)
          exact hby y hy ey (by rw [lookup_setEntry_ne _ _ hyx]; exact hey)
      · intro hall
        refine ⟨hall x List.mem_cons_self ex hx, fun y hy ey hey => ?_⟩
        have hyx : y ≠ x := fun h => hxrest (h ▸ hy)
        rw [lookup_setEntry_ne _ _ hyx] at hey
        exact hall y (List.mem_cons_of_mem _ hy) ey hey
    · intro y
      rw [hlook y]
      by_cases hyx : y = x
      · subst hyx
        rw [if_neg hxrest, lookup_setEntry_self, if_pos List.mem_cons_self, hx]
        rfl
      · rw [lookup_setEntry_ne _ _ hyx]
        simp [hyx]

/-- A node whose edge holds a block: its entry, its parent node below the block's number and
its edge. -/
theorem Shape.holds_parent (hs : Shape T graph) {x : H} (hx : graph.EdgeHolds hash number x) :
    ∃ ex m, graph.entries.lookup x = some ex ∧ ParentNodeAt T graph x m ∧
      ex.ancestors = T.edge x m ∧ ex.number = T.number x ∧ m ≤ number ∧ number < T.number x ∧
      T.ancestorAt x number = hash := by
  obtain ⟨ex, hex, hb⟩ := hx
  obtain ⟨-, m, hpar, hanc, hm, hn, hhash⟩ := hs.ancestorBlock_eq_some hex hb
  exact ⟨ex, m, hex, hpar, hanc, hs.number x ex hex, hm, hn, hhash.symm⟩

/-- The nodes whose edge holds a block that is not a node share their parent node, strictly
below the block, which is their ancestor there. -/
theorem Shape.holds_common_parent (hs : Shape T graph) (hhash : hash ∉ graph.entries)
    {x0 : H} {m : ℕ} (hx0 : graph.EdgeHolds hash number x0) (hpar0 : ParentNodeAt T graph x0 m) :
    ∀ y, graph.EdgeHolds hash number y → ∃ ey, graph.entries.lookup y = some ey ∧
      ParentNodeAt T graph y m ∧ ey.ancestors = T.edge y m ∧ ey.number = T.number y ∧
      m < number ∧ number < T.number y ∧ T.ancestorAt y number = hash ∧
      T.ancestorAt y m = T.ancestorAt hash m := by
  obtain ⟨e0, m0, -, hpar0', -, -, hm0, hn0, hh0⟩ := hs.holds_parent hx0
  have hm0eq : m0 = m := hpar0'.unique hpar0
  subst hm0eq
  intro y hy
  obtain ⟨ey, my, hey, hpary, hancy, hnumy, hmy, hny, hhy⟩ := hs.holds_parent hy
  have hmyeq : my = m0 := hpary.eq_of_ancestorAt_eq hpar0' hmy hny hm0 hn0 (hhy.trans hh0.symm)
  subst hmyeq
  have hanc : T.ancestorAt y my = T.ancestorAt hash my := by
    rw [← hhy, T.ancestorAt_ancestorAt y _ my hmy hny.le]
  -- the parent node is a node, so it is not the block
  have hlt : my < number := by
    rcases Nat.lt_or_ge my number with h | h
    · exact h
    · have hnode := hpary.2.1
      rw [le_antisymm hmy h, hhy] at hnode
      exact absurd hnode hhash
  exact ⟨ey, hey, hpary, hancy, hnumy, hlt, hny, hhy, hanc⟩

/-- **`introduce_branch`** over the nodes whose edge holds a block that is not a node cuts
their edges at the block, makes it a node with the edge down to their common parent node and
the join of their votes, and moves them from the parent's children to the new node's. -/
theorem introduceBranch_eq (hs : Shape T graph) (hops : ops.Lawful α Good)
    (hgood : ∀ h e, graph.entries.lookup h = some e → Good e.cumulativeVote)
    {containing : List H} {x0 : H} {m : ℕ} {ea : Entry H V}
    (hnodup : containing.Nodup) (hx0 : x0 ∈ containing)
    (hspec : ∀ x, x ∈ containing ↔ graph.EdgeHolds hash (T.number hash) x)
    (hhash : hash ∉ graph.entries) (hpar0 : ParentNodeAt T graph x0 m)
    (hea : graph.entries.lookup (T.ancestorAt hash m) = some ea) :
    ∃ graph' c, graph.introduceBranch ops containing hash (T.number hash) = .ok graph' ∧
      Good c ∧
      (∀ b, α c ≤ b ↔ ∀ x ∈ containing, ∀ ex, graph.entries.lookup x = some ex →
        α ex.cumulativeVote ≤ b) ∧
      (∀ k, graph'.entries.lookup k =
        if k = hash then some ⟨T.number hash, T.edge hash m, containing, c⟩
        else if k = T.ancestorAt hash m then
          some { ea with
            descendents := ea.descendents.filter (fun h => decide (h ∉ containing)) ++ [hash] }
        else if k ∈ containing then
          (graph.entries.lookup k).map fun e => { e with ancestors := T.edge k (T.number hash) }
        else graph.entries.lookup k) ∧
      graph'.heads = graph.heads ∧ graph'.base = graph.base ∧
      graph'.baseNumber = graph.baseNumber := by
  -- every node of the list holds the block and has its parent node at `m`
  have hinfo := fun y hy =>
    hs.holds_common_parent hhash ((hspec x0).mp hx0) hpar0 y ((hspec y).mp hy)
  obtain ⟨x, rest, rfl⟩ : ∃ x rest, containing = x :: rest :=
    List.exists_cons_of_ne_nil (List.ne_nil_of_mem hx0)
  obtain ⟨hxrest, hnodup'⟩ := List.nodup_cons.mp hnodup
  obtain ⟨ex, hex, hparx, hancx, hnumx, hmx, hnx, hhx, hax⟩ := hinfo x List.mem_cons_self
  -- the common parent node, below the block, in none of the nodes' places
  have haE : T.ancestorAt hash m ∈ graph.entries := hax ▸ hparx.2.1
  have hanum : T.number (T.ancestorAt hash m) = m := T.number_ancestorAt hash m (by omega)
  have hane : T.ancestorAt hash m ≠ hash := fun h => hhash (h ▸ haE)
  have hanotin : T.ancestorAt hash m ∉ x :: rest := by
    intro hmem
    obtain ⟨-, -, -, -, -, -, hlt, -⟩ := hinfo _ hmem
    omega
  obtain ⟨c0, hc0, hg0, hα0⟩ := hops.addAssign_ok _ _ hops.default_good (hgood x ex hex)
  have hrest : ∀ y ∈ rest, ∃ ey, (graph.setEntry x { ex with
      ancestors := ex.ancestors.take (ex.number - T.number hash) }).entries.lookup y = some ey ∧
      T.number hash ≤ ey.number ∧ Good ey.cumulativeVote := by
    intro y hy
    have hyx : y ≠ x := fun h => hxrest (h ▸ hy)
    obtain ⟨ey, hey, -, -, hnumy, -, hny, -⟩ := hinfo y (List.mem_cons_of_mem _ hy)
    rw [lookup_setEntry_ne _ _ hyx]
    exact ⟨ey, hey, by omega, hgood y ey hey⟩
  obtain ⟨Gf, c, hfold, hgc, hαc, hlookf, hheadsf, hbasef, hbnf⟩ :=
    foldlM_introduceBranchStep hops rest _
      ⟨T.number hash, ex.ancestors.drop (ex.number - T.number hash), [x], c0⟩
      ex.ancestorNode hnodup' hg0 hrest
  have hdrop : ex.ancestors.drop (ex.number - T.number hash) = T.edge hash m := by
    rw [hancx, hnumx, BlockTree.drop_edge hmx.le hnx.le, hhx]
  have hnode : ex.ancestorNode = some (T.ancestorAt hash m) := by
    rw [Entry.ancestorNode_of_edge hancx hparx.1, hax]
  -- the cut of a node's edge is its edge down to the block
  have hcut : ∀ y ∈ x :: rest, (graph.entries.lookup y).map
      (fun e => { e with ancestors := e.ancestors.take (e.number - T.number hash) }) =
      (graph.entries.lookup y).map fun e => { e with ancestors := T.edge y (T.number hash) } := by
    intro y hy
    obtain ⟨ey, hey, -, hancy, hnumy, -, hny, -⟩ := hinfo y hy
    rw [hey, Option.map_some, Option.map_some, hancy, hnumy, BlockTree.take_edge hmx.le hny.le]
  have hlookf' : ∀ k, Gf.entries.lookup k =
      if k ∈ x :: rest then
        (graph.entries.lookup k).map fun e => { e with ancestors := T.edge k (T.number hash) }
      else graph.entries.lookup k := by
    intro k
    rw [hlookf k]
    by_cases hkx : k = x
    · subst hkx
      rw [if_neg hxrest, lookup_setEntry_self, if_pos List.mem_cons_self,
        ← hcut k List.mem_cons_self, hex]
      rfl
    · rw [lookup_setEntry_ne _ _ hkx]
      by_cases hkr : k ∈ rest
      · rw [if_pos hkr, if_pos (List.mem_cons_of_mem _ hkr), hcut k (List.mem_cons_of_mem _ hkr)]
      · rw [if_neg hkr, if_neg (by simp [hkx, hkr])]
  have hGfa : Gf.entries.lookup (T.ancestorAt hash m) = some ea := by
    rw [hlookf', if_neg hanotin, hea]
  have hhashnotin : hash ∉ x :: rest := by
    intro h
    obtain ⟨ey, hey, -⟩ := hinfo hash h
    exact hhash (mem_of_lookup hey)
  have hGfhash : Gf.entries.lookup hash = none := by
    rw [hlookf', if_neg hhashnotin]
    exact AList.lookup_eq_none.mpr hhash
  refine ⟨(Gf.setEntry (T.ancestorAt hash m) { ea with
      descendents := ea.descendents.filter (fun h => decide (h ∉ [x] ++ rest)) ++ [hash] }).setEntry
      hash ⟨T.number hash, ex.ancestors.drop (ex.number - T.number hash), [x] ++ rest, c⟩,
    c, ?_, hgc, ?_, ?_, ?_, ?_, ?_⟩
  · -- the run of the code: the fold, the parent node's children, the new node
    unfold introduceBranch
    rw [List.foldlM_cons, introduceBranchStep_none hex (by omega) hc0, ok_bind, hfold]
    simp [hnode, hGfa, hane.symm, AList.lookup_eq_none.mp hGfhash]
  · intro b
    simp only [hαc b, hα0, hops.α_default, bot_sup_eq]
    constructor
    · rintro ⟨hbx, hby⟩ y hy ey hey
      rcases List.mem_cons.mp hy with rfl | hy
      · rw [hex] at hey
        cases hey
        exact hbx
      · have hyx : y ≠ x := fun h => hxrest (h ▸ hy)
        exact hby y hy ey (by rw [lookup_setEntry_ne _ _ hyx]; exact hey)
    · intro hall
      refine ⟨hall x List.mem_cons_self ex hex, fun y hy ey hey => ?_⟩
      have hyx : y ≠ x := fun h => hxrest (h ▸ hy)
      rw [lookup_setEntry_ne _ _ hyx] at hey
      exact hall y (List.mem_cons_of_mem _ hy) ey hey
  · intro k
    split_ifs with h1 h2 h3
    · subst h1
      rw [lookup_setEntry_self, hdrop]
      rfl
    · subst h2
      rw [lookup_setEntry_ne _ _ hane, lookup_setEntry_self]
      rfl
    · rw [lookup_setEntry_ne _ _ h1, lookup_setEntry_ne _ _ h2, hlookf', if_pos h3]
    · rw [lookup_setEntry_ne _ _ h1, lookup_setEntry_ne _ _ h2, hlookf', if_neg h3]
  · simp only [setEntry_heads, hheadsf]
  · simp only [setEntry_base, hbasef]
  · simp only [setEntry_baseNumber, hbnf]

/-- The shape of a graph with a new branch node: the block, not a node and held by the edges of
exactly the nodes `containing`, cuts their edges and sits on the edge down to their common
parent node, which trades them for it as a child. -/
theorem Shape.addBranch (hs : Shape T graph) {graph' : VoteGraph H V} {containing : List H}
    {x0 : H} {m : ℕ} {ea : Entry H V} (v : V)
    (hnodup : containing.Nodup) (hx0 : x0 ∈ containing)
    (hspec : ∀ x, x ∈ containing ↔ graph.EdgeHolds hash (T.number hash) x)
    (hhash : hash ∉ graph.entries) (hpar0 : ParentNodeAt T graph x0 m)
    (hea : graph.entries.lookup (T.ancestorAt hash m) = some ea)
    (hlook : ∀ k, graph'.entries.lookup k =
      if k = hash then some ⟨T.number hash, T.edge hash m, containing, v⟩
      else if k = T.ancestorAt hash m then
        some { ea with
          descendents := ea.descendents.filter (fun h => decide (h ∉ containing)) ++ [hash] }
      else if k ∈ containing then
        (graph.entries.lookup k).map fun e => { e with ancestors := T.edge k (T.number hash) }
      else graph.entries.lookup k)
    (hheads : graph'.heads = graph.heads) (hbase : graph'.base = graph.base)
    (hbn : graph'.baseNumber = graph.baseNumber) :
    Shape T graph' := by
  have hinfo := fun y hy =>
    hs.holds_common_parent hhash ((hspec x0).mp hx0) hpar0 y ((hspec y).mp hy)
  obtain ⟨e0, he0, hpar0', hanc0, -, hmn, hn0, hh0, ha0⟩ := hinfo x0 hx0
  have haE : T.ancestorAt hash m ∈ graph.entries := ha0 ▸ hpar0.2.1
  have hanum : T.number (T.ancestorAt hash m) = m := T.number_ancestorAt hash m hmn.le
  have hane : T.ancestorAt hash m ≠ hash := fun h => hhash (h ▸ haE)
  have hanotin : T.ancestorAt hash m ∉ containing := by
    intro hmem
    obtain ⟨-, -, -, -, -, -, hlt, -⟩ := hinfo _ hmem
    omega
  have hhashnotin : hash ∉ containing := fun h => hhash ((hspec hash).mp h).mem
  have hbasenotin : graph.base ∉ containing := by
    intro h
    obtain ⟨e, he, hb⟩ := (hspec _).mp h
    rw [hs.ancestorBlock_base he] at hb
    cases hb
  have hdx : T.Descends hash x0 := by
    have h := @BlockTree.descends_ancestorAt H T x0 (T.number hash) hn0.le
    rwa [hh0] at h
  have hmem : ∀ k, k ∈ graph'.entries ↔ k = hash ∨ k ∈ graph.entries := by
    intro k
    rw [← AList.lookup_isSome, ← AList.lookup_isSome, hlook]
    split_ifs with h1 h2 h3
    · simp [h1]
    · rw [h2, hea]
      simp
    · simp [h1]
    · simp [h1]
  -- old parent nodes: of nodes, not the block; of the cut nodes, the common parent node
  have hold_ne : ∀ c p, (∃ ec, graph.entries.lookup c = some ec ∧ ec.ancestorNode = some p) →
      c ≠ hash := by
    rintro c p ⟨ec, hc, -⟩ rfl
    exact hhash (mem_of_lookup hc)
  have hold_in : ∀ c p, (∃ ec, graph.entries.lookup c = some ec ∧ ec.ancestorNode = some p) →
      c ∈ containing → p = T.ancestorAt hash m := by
    rintro c p ⟨ec, hc, hp⟩ hcL
    obtain ⟨ec', hc', hparc, hancc, -, -, -, -, hac⟩ := hinfo c hcL
    rw [hc] at hc'
    cases hc'
    rw [Entry.ancestorNode_of_edge hancc hparc.1, hac] at hp
    exact (Option.some.inj hp).symm
  -- the parent nodes of the new graph
  have hnode : ∀ c p, (∃ ec, graph'.entries.lookup c = some ec ∧ ec.ancestorNode = some p) ↔
      (c = hash ∧ p = T.ancestorAt hash m) ∨ (c ∈ containing ∧ p = hash) ∨
        (c ∉ containing ∧ ∃ ec, graph.entries.lookup c = some ec ∧ ec.ancestorNode = some p) := by
    intro c p
    rw [hlook]
    split_ifs with h1 h2 h3
    · subst h1
      have hn : (⟨T.number c, T.edge c m, containing, v⟩ : Entry H V).ancestorNode =
          some (T.ancestorAt c m) := Entry.ancestorNode_of_edge rfl hmn
      constructor
      · rintro ⟨ec, hec, hp⟩
        cases hec
        rw [hn] at hp
        exact .inl ⟨rfl, (Option.some.inj hp).symm⟩
      · rintro (⟨-, rfl⟩ | ⟨hc, -⟩ | ⟨-, ec, hc, -⟩)
        · exact ⟨_, rfl, hn⟩
        · exact absurd hc hhashnotin
        · exact absurd (mem_of_lookup hc) hhash
    · subst h2
      constructor
      · rintro ⟨ec, hec, hp⟩
        cases hec
        exact .inr (.inr ⟨hanotin, ea, hea, hp⟩)
      · rintro (⟨hc, -⟩ | ⟨hc, -⟩ | ⟨-, ec, hc, hp⟩)
        · exact absurd hc hane
        · exact absurd hc hanotin
        · rw [hea] at hc
          cases hc
          exact ⟨_, rfl, hp⟩
    · obtain ⟨ec, hec, -, -, -, -, hnc, hhc, -⟩ := hinfo c h3
      rw [hec, Option.map_some]
      have hn : ({ ec with ancestors := T.edge c (T.number hash) } : Entry H V).ancestorNode =
          some hash := by
        rw [Entry.ancestorNode_of_edge rfl hnc, hhc]
      constructor
      · rintro ⟨ec', hec', hp⟩
        cases hec'
        rw [hn] at hp
        exact .inr (.inl ⟨h3, (Option.some.inj hp).symm⟩)
      · rintro (⟨hc, -⟩ | ⟨-, rfl⟩ | ⟨hc, -⟩)
        · exact absurd hc h1
        · exact ⟨_, rfl, hn⟩
        · exact absurd h3 hc
    · constructor
      · intro hold
        exact .inr (.inr ⟨h3, hold⟩)
      · rintro (⟨hc, -⟩ | ⟨hc, -⟩ | ⟨-, hold⟩)
        · exact absurd hc h1
        · exact absurd hc h3
        · exact hold
  -- a node the block does not cut keeps its parent node
  have hold_edge : ∀ k e, graph.entries.lookup k = some e → k ≠ graph.base → k ∉ containing →
      ∃ m', ParentNodeAt T graph' k m' ∧ e.ancestors = T.edge k m' := by
    intro k e he hkb hkL
    obtain ⟨mk, hpar, hanc⟩ := hs.edge k e he hkb
    exact ⟨mk, hpar.of_entries hmem fun i hmi hin => hs.ancestorAt_ne_of_not_holds he hanc
      (fun hh => hkL ((hspec k).mpr hh)) i hmi.le hin, hanc⟩
  refine ⟨?_, ?_, ?_, ?_, ?_, ?_, ?_, ?_, ?_, ?_, ?_⟩
  · -- base_mem
    rw [hbase]
    exact (hmem _).mpr (.inr hs.base_mem)
  · -- base_number
    rw [hbase, hbn]
    exact hs.base_number
  · -- base_ancestors
    intro e he
    have hbh : graph.base ≠ hash := fun h => hhash (h ▸ hs.base_mem)
    rw [hbase, hlook, if_neg hbh] at he
    by_cases h2 : graph.base = T.ancestorAt hash m
    · rw [if_pos h2] at he
      cases he
      rw [← h2] at hea
      exact hs.base_ancestors ea hea
    · rw [if_neg h2, if_neg hbasenotin] at he
      exact hs.base_ancestors e he
  · -- number
    intro k e he
    rw [hlook] at he
    split_ifs at he with h1 h2 h3
    · cases he
      rw [h1]
    · cases he
      rw [h2]
      exact hs.number _ ea hea
    · obtain ⟨e', he', rfl⟩ := Option.map_eq_some_iff.mp he
      exact hs.number k e' he'
    · exact hs.number k e he
  · -- descends_base: the block lies between the base and the nodes it cuts
    intro k hk
    rw [hbase]
    rcases (hmem k).mp hk with hkh | hk
    · rw [hkh]
      refine (hs.descends_base x0 (mem_of_lookup he0)).of_descends_of_number_le hdx ?_
      calc T.number graph.base = graph.baseNumber := hs.base_number
        _ ≤ m := by
          rw [← hanum]
          exact hs.baseNumber_le haE
        _ ≤ T.number hash := hmn.le
    · exact hs.descends_base k hk
  · -- edge
    intro k e he hkb
    rw [hbase] at hkb
    rw [hlook] at he
    split_ifs at he with h1 h2 h3
    · cases he
      rw [h1]
      refine ⟨m, ParentNodeAt.of_entries ⟨hmn, haE, fun i hmi hin hi => ?_⟩ hmem
        fun i _ hin heq => ?_, rfl⟩
      · -- the blocks strictly between lie strictly inside the first cut node's edge
        have hanc : T.ancestorAt hash i = T.ancestorAt x0 i := by
          rw [← hh0, T.ancestorAt_ancestorAt x0 _ i hin.le hn0.le]
        rw [hanc] at hi
        exact hpar0'.2.2 i hmi (by omega) hi
      · have hi := T.number_ancestorAt hash i hin.le
        rw [heq] at hi
        omega
    · cases he
      rw [h2] at hkb ⊢
      exact hold_edge _ ea hea hkb hanotin
    · obtain ⟨e', he', rfl⟩ := Option.map_eq_some_iff.mp he
      obtain ⟨ek, hek, hpark, -, -, -, hnk, hhk, -⟩ := hinfo k h3
      refine ⟨T.number hash, ⟨hnk, (hmem _).mpr (.inl hhk), fun i hi hin hmemi => ?_⟩, rfl⟩
      rcases (hmem _).mp hmemi with heq | hmemi
      · have hnum := T.number_ancestorAt k i hin.le
        rw [heq] at hnum
        omega
      · exact hpark.2.2 i (by omega) hin hmemi
    · exact hold_edge k e he hkb h3
  · -- descendents_nodup
    intro p e he
    rw [hlook] at he
    split_ifs at he with h1 h2 h3
    · cases he
      exact hnodup
    · cases he
      refine List.nodup_append.mpr
        ⟨(hs.descendents_nodup _ ea hea).filter _, List.nodup_singleton hash, ?_⟩
      intro c hc c' hc'
      rw [List.mem_singleton.mp hc']
      exact hold_ne c _ ((hs.mem_descendents _ ea hea c).mp (List.mem_filter.mp hc).1)
    · obtain ⟨e', he', rfl⟩ := Option.map_eq_some_iff.mp he
      exact hs.descendents_nodup p e' he'
    · exact hs.descendents_nodup p e he
  · -- mem_descendents
    intro p e he c
    rw [hnode c p]
    rw [hlook] at he
    split_ifs at he with h1 h2 h3
    · -- the new node's children are the nodes it cuts
      cases he
      rw [h1]
      constructor
      · intro hc
        exact .inr (.inl ⟨hc, rfl⟩)
      · rintro (⟨-, hpa⟩ | ⟨hc, -⟩ | ⟨-, ec, hc, hp⟩)
        · exact absurd hpa.symm hane
        · exact hc
        · exact absurd (hs.ancestorNode_mem hc hp) hhash
    · -- the parent node trades them for the new node
      cases he
      rw [h2, List.mem_append, List.mem_filter, List.mem_singleton,
        hs.mem_descendents _ ea hea c]
      constructor
      · rintro (⟨hold, hcL⟩ | rfl)
        · exact .inr (.inr ⟨by simpa using hcL, hold⟩)
        · exact .inl ⟨rfl, rfl⟩
      · rintro (⟨rfl, -⟩ | ⟨-, hpa⟩ | ⟨hcL, hold⟩)
        · exact .inr rfl
        · exact absurd hpa hane
        · exact .inl ⟨hold, by simpa using hcL⟩
    · obtain ⟨e', he', rfl⟩ := Option.map_eq_some_iff.mp he
      show c ∈ e'.descendents ↔ _
      rw [hs.mem_descendents p e' he' c]
      constructor
      · intro hold
        by_cases hcL : c ∈ containing
        · exact absurd (hold_in c p hold hcL ▸ h3) hanotin
        · exact .inr (.inr ⟨hcL, hold⟩)
      · rintro (⟨-, hpa⟩ | ⟨-, hph⟩ | ⟨-, hold⟩)
        · exact absurd hpa h2
        · exact absurd hph h1
        · exact hold
    · rw [hs.mem_descendents p e he c]
      constructor
      · intro hold
        by_cases hcL : c ∈ containing
        · exact absurd (hold_in c p hold hcL) h2
        · exact .inr (.inr ⟨hcL, hold⟩)
      · rintro (⟨-, hpa⟩ | ⟨-, hph⟩ | ⟨-, hold⟩)
        · exact absurd hpa h2
        · exact absurd hph h1
        · exact hold
  · -- heads_nodup
    rw [hheads]
    exact hs.heads_nodup
  · -- mem_heads
    intro l
    rw [hheads, hs.mem_heads l, hlook]
    split_ifs with h1 h2 h3
    · -- the block was not a node, and has children
      rw [h1]
      constructor
      · rintro ⟨e, he, -⟩
        exact absurd (mem_of_lookup he) hhash
      · rintro ⟨e, he, hnil⟩
        cases he
        change containing = [] at hnil
        rw [hnil] at hx0
        cases hx0
    · -- the parent node had the first cut node as a child, and has the block
      rw [h2]
      constructor
      · rintro ⟨e, he, hnil⟩
        rw [hea] at he
        cases he
        have hx0d : x0 ∈ ea.descendents := (hs.mem_descendents _ ea hea x0).mpr
          ⟨e0, he0, by rw [Entry.ancestorNode_of_edge hanc0 hpar0'.1, ha0]⟩
        rw [hnil] at hx0d
        cases hx0d
      · rintro ⟨e, he, hnil⟩
        cases he
        simp at hnil
    · constructor
      · rintro ⟨e, he, hnil⟩
        exact ⟨{ e with ancestors := T.edge l (T.number hash) }, by rw [he, Option.map_some], hnil⟩
      · rintro ⟨e', he', hnil⟩
        obtain ⟨e, he, rfl⟩ := Option.map_eq_some_iff.mp he'
        exact ⟨e, he, hnil⟩
    · rfl
  · -- heads_cover
    intro k hk
    rw [hheads]
    rcases (hmem k).mp hk with hkh | hk
    · obtain ⟨l, hl, hx0l⟩ := hs.heads_cover x0 (mem_of_lookup he0)
      rw [hkh]
      exact ⟨l, hl, hdx.trans hx0l⟩
    · exact hs.heads_cover k hk

/-- **`introduce_branch`** over the nodes whose edge holds a block that is not a node succeeds
and keeps the invariant: the new node's vote, the join of the cut nodes' votes, is the join of
the votes on or above the block.  The block is then a node. -/
theorem introduceBranch_inv {votes : List (H × V)} (hinv : Inv T α Good graph votes)
    (hops : ops.Lawful α Good) {containing : List H} (hnodup : containing.Nodup)
    (hne : containing ≠ [])
    (hspec : ∀ x, x ∈ containing ↔ graph.EdgeHolds hash (T.number hash) x)
    (hhash : hash ∉ graph.entries) :
    ∃ graph', graph.introduceBranch ops containing hash (T.number hash) = .ok graph' ∧
      Inv T α Good graph' votes ∧ hash ∈ graph'.entries ∧ graph'.base = graph.base := by
  have hs := hinv.toShape
  obtain ⟨x0, hx0⟩ := List.exists_mem_of_ne_nil containing hne
  obtain ⟨e0, m, -, hpar0, -⟩ := hs.holds_parent ((hspec x0).mp hx0)
  have hinfo := fun y hy =>
    hs.holds_common_parent hhash ((hspec x0).mp hx0) hpar0 y ((hspec y).mp hy)
  obtain ⟨-, -, -, -, -, hmn, -, -, ha0⟩ := hinfo x0 hx0
  have haE : T.ancestorAt hash m ∈ graph.entries := ha0 ▸ hpar0.2.1
  obtain ⟨ea, hea⟩ := exists_lookup haE
  obtain ⟨graph', c, hrun, hgc, hαc, hlook, hheads, hbase, hbn⟩ :=
    introduceBranch_eq hs hops hinv.good hnodup hx0 hspec hhash hpar0 hea
  have hs' := hs.addBranch c hnodup hx0 hspec hhash hpar0 hea hlook hheads hbase hbn
  have hnew : graph'.entries.lookup hash = some ⟨T.number hash, T.edge hash m, containing, c⟩ := by
    rw [hlook, if_pos rfl]
  have hmem : ∀ k, k ∈ graph'.entries ↔ k = hash ∨ k ∈ graph.entries := by
    intro k
    rw [← AList.lookup_isSome, ← AList.lookup_isSome, hlook]
    split_ifs with h1 h2 h3
    · simp [h1]
    · rw [h2, hea]
      simp
    · simp [h1]
    · simp [h1]
  refine ⟨graph', hrun, hinv.of_newNode hs' hmem hnew ?_ hgc ?_, mem_of_lookup hnew, hbase⟩
  · apply le_antisymm
    · -- the votes above each cut node are votes above the block
      rw [hαc]
      intro x hx ex hex
      rw [hinv.cumulative x ex hex]
      obtain ⟨-, -, -, -, -, -, hnx, hhx, -⟩ := hinfo x hx
      have hdx : T.Descends hash x := by
        have h := @BlockTree.descends_ancestorAt H T x _ hnx.le
        rwa [hhx] at h
      exact (joinedVote_le_iff votes x _).mpr fun t v htv hxt => le_joinedVote htv (hdx.trans hxt)
    · -- a vote above the block is on a node above one of the cut nodes
      refine (joinedVote_le_iff votes hash _).mpr fun t v htv hht => ?_
      have ht := hinv.votes_mem t v htv
      have hlt : T.number hash < T.number t :=
        lt_of_le_of_ne hht.1 fun h => hhash (hht.eq_of_number_eq h ▸ ht)
      have hbaseNum : graph.baseNumber ≤ T.number hash := by
        have h := hs.baseNumber_le haE
        rw [T.number_ancestorAt hash m hmn.le] at h
        omega
      obtain ⟨y, ey, hy, hyt, hyb⟩ := hs.exists_ancestorBlock hbaseNum t ht hlt
      rw [hht.ancestorAt_number] at hyb
      have hyL : y ∈ containing := (hspec y).mpr ⟨ey, hy, hyb⟩
      calc α v ≤ joinedVote T α votes y := le_joinedVote htv hyt
        _ = α ey.cumulativeVote := (hinv.cumulative y ey hy).symm
        _ ≤ α c := (hαc (α c)).mp le_rfl y hyL ey hy
  · intro k e' hk he'
    rw [hlook, if_neg hk] at he'
    by_cases h2 : k = T.ancestorAt hash m
    · rw [if_pos h2] at he'
      cases he'
      exact ⟨ea, h2 ▸ hea, rfl⟩
    · rw [if_neg h2] at he'
      by_cases h3 : k ∈ containing
      · rw [if_pos h3] at he'
        obtain ⟨e, he, rfl⟩ := Option.map_eq_some_iff.mp he'
        exact ⟨e, he, rfl⟩
      · rw [if_neg h3] at he'
        exact ⟨e', he', rfl⟩

end Branch

/-! ## Adding the vote along the nodes -/

/-- Two graphs that differ at most in their nodes' cumulative votes. -/
structure SameShape (graph' graph : VoteGraph H V) : Prop where
  heads : graph'.heads = graph.heads
  base : graph'.base = graph.base
  baseNumber : graph'.baseNumber = graph.baseNumber
  lookup : ∀ k, (graph'.entries.lookup k).map (fun e => (e.number, e.ancestors, e.descendents)) =
    (graph.entries.lookup k).map fun e => (e.number, e.ancestors, e.descendents)

namespace SameShape

variable {graph graph' graph'' : VoteGraph H V}

theorem trans (h : SameShape graph'' graph') (h' : SameShape graph' graph) :
    SameShape graph'' graph :=
  ⟨h.heads.trans h'.heads, h.base.trans h'.base, h.baseNumber.trans h'.baseNumber,
    fun k => (h.lookup k).trans (h'.lookup k)⟩

/-- Replacing a node's cumulative vote keeps the shape. -/
theorem setEntry_vote {hash : H} {e : Entry H V} (he : graph.entries.lookup hash = some e)
    (v : V) : SameShape (graph.setEntry hash { e with cumulativeVote := v }) graph := by
  refine ⟨rfl, rfl, rfl, fun k => ?_⟩
  by_cases hk : k = hash
  · subst hk
    rw [lookup_setEntry_self, he]
    rfl
  · rw [lookup_setEntry_ne _ _ hk]

/-- An entry of the new graph has an entry of the old one with the same number, edge and
children. -/
theorem exists_old (h : SameShape graph' graph) {k : H} {e' : Entry H V}
    (he' : graph'.entries.lookup k = some e') :
    ∃ e, graph.entries.lookup k = some e ∧ e'.number = e.number ∧ e'.ancestors = e.ancestors ∧
      e'.descendents = e.descendents := by
  have hk := h.lookup k
  rw [he', Option.map_some] at hk
  obtain ⟨e, he, heq⟩ := Option.map_eq_some_iff.mp hk.symm
  simp only [Prod.mk.injEq] at heq
  exact ⟨e, he, heq.1.symm, heq.2.1.symm, heq.2.2.symm⟩

theorem exists_new (h : SameShape graph' graph) {k : H} {e : Entry H V}
    (he : graph.entries.lookup k = some e) :
    ∃ e', graph'.entries.lookup k = some e' ∧ e'.number = e.number ∧ e'.ancestors = e.ancestors ∧
      e'.descendents = e.descendents := by
  have hk := h.lookup k
  rw [he, Option.map_some] at hk
  obtain ⟨e', he', heq⟩ := Option.map_eq_some_iff.mp hk
  simp only [Prod.mk.injEq] at heq
  exact ⟨e', he', heq.1, heq.2.1, heq.2.2⟩

theorem mem (h : SameShape graph' graph) (k : H) : k ∈ graph'.entries ↔ k ∈ graph.entries := by
  constructor
  · intro hk
    obtain ⟨e', he'⟩ := exists_lookup hk
    obtain ⟨e, he, -⟩ := h.exists_old he'
    exact mem_of_lookup he
  · intro hk
    obtain ⟨e, he⟩ := exists_lookup hk
    obtain ⟨e', he', -⟩ := h.exists_new he
    exact mem_of_lookup he'

end SameShape

theorem ParentNodeAt.of_mem {graph graph' : VoteGraph H V} {h : H} {m : ℕ}
    (hpar : ParentNodeAt T graph h m) (hmem : ∀ k, k ∈ graph'.entries ↔ k ∈ graph.entries) :
    ParentNodeAt T graph' h m :=
  ⟨hpar.1, (hmem _).mpr hpar.2.1, fun j hmj hjn hj => hpar.2.2 j hmj hjn ((hmem _).mp hj)⟩

/-- The shape is the same for a graph of the same shape. -/
theorem Shape.of_sameShape {graph graph' : VoteGraph H V} (hs : Shape T graph)
    (h : SameShape graph' graph) : Shape T graph' := by
  have hnode : ∀ c p, (∃ ec, graph'.entries.lookup c = some ec ∧ ec.ancestorNode = some p) ↔
      ∃ ec, graph.entries.lookup c = some ec ∧ ec.ancestorNode = some p := by
    intro c p
    constructor
    · rintro ⟨ec', hc', hp⟩
      obtain ⟨ec, hc, -, hanc, -⟩ := h.exists_old hc'
      exact ⟨ec, hc, by rw [Entry.ancestorNode, ← hanc]; exact hp⟩
    · rintro ⟨ec, hc, hp⟩
      obtain ⟨ec', hc', -, hanc, -⟩ := h.exists_new hc
      exact ⟨ec', hc', by rw [Entry.ancestorNode, hanc]; exact hp⟩
  refine ⟨?_, ?_, ?_, ?_, ?_, ?_, ?_, ?_, ?_, ?_, ?_⟩
  · rw [h.mem, h.base]
    exact hs.base_mem
  · rw [h.base, h.baseNumber]
    exact hs.base_number
  · intro e' he'
    rw [h.base] at he'
    obtain ⟨e, he, -, hanc, -⟩ := h.exists_old he'
    rw [hanc]
    exact hs.base_ancestors e he
  · intro k e' he'
    obtain ⟨e, he, hnum, -⟩ := h.exists_old he'
    rw [hnum]
    exact hs.number k e he
  · intro k hk
    rw [h.base]
    exact hs.descends_base k ((h.mem k).mp hk)
  · intro k e' he' hkb
    rw [h.base] at hkb
    obtain ⟨e, he, -, hanc, -⟩ := h.exists_old he'
    obtain ⟨m, hpar, hedge⟩ := hs.edge k e he hkb
    exact ⟨m, hpar.of_mem h.mem, hanc.trans hedge⟩
  · intro p e' he'
    obtain ⟨e, he, -, -, hdesc⟩ := h.exists_old he'
    rw [hdesc]
    exact hs.descendents_nodup p e he
  · intro p e' he' c
    obtain ⟨e, he, -, -, hdesc⟩ := h.exists_old he'
    rw [hdesc, hnode]
    exact hs.mem_descendents p e he c
  · rw [h.heads]
    exact hs.heads_nodup
  · intro l
    rw [h.heads, hs.mem_heads l]
    constructor
    · rintro ⟨e, he, hnil⟩
      obtain ⟨e', he', -, -, hdesc⟩ := h.exists_new he
      exact ⟨e', he', hdesc.trans hnil⟩
    · rintro ⟨e', he', hnil⟩
      obtain ⟨e, he, -, -, hdesc⟩ := h.exists_old he'
      exact ⟨e, he, hdesc.symm.trans hnil⟩
  · intro k hk
    rw [h.heads]
    exact hs.heads_cover k ((h.mem k).mp hk)

section AddVote

variable {M : Type} [SemilatticeSup M] [OrderBot M] {α : V → M} {Good : V → Prop}
  {ops : VoteOps V}

/-- For a node, the nodes on the way down from it to the base are the nodes it descends from:
the way from a node other than the base goes on from its parent node. -/
theorem Shape.descends_iff_parent {graph : VoteGraph H V} (hs : Shape T graph) {y p k : H}
    {ey : Entry H V} (hy : graph.entries.lookup y = some ey) (hp : ey.ancestorNode = some p)
    (hk : k ∈ graph.entries) (hky : k ≠ y) : T.Descends k p ↔ T.Descends k y := by
  have hyb : y ≠ graph.base := by
    rintro rfl
    rw [hs.ancestorNode_base hy] at hp
    cases hp
  obtain ⟨m, hpar, -, hnode⟩ := hs.exists_parent hy hyb
  rw [hp] at hnode
  cases hnode
  constructor
  · intro hkp
    exact hkp.trans (BlockTree.descends_ancestorAt hpar.1.le)
  · intro hky'
    exact (hpar.descends_of_descends hk hky' hky).2

/-- **The loop of `insert`** that adds the vote from a node down to the base, with fuel above
the node's number, adds it to exactly the nodes the node descends from and changes nothing
else. -/
theorem addVote_spec (hops : ops.Lawful α Good) {vote : V} (hv : Good vote) :
    ∀ (fuel : ℕ) (graph : VoteGraph H V) (y : H), Shape T graph →
      (∀ h e, graph.entries.lookup h = some e → Good e.cumulativeVote) →
      y ∈ graph.entries → T.number y < fuel →
      ∃ graph', addVote ops fuel graph y vote = .ok graph' ∧ SameShape graph' graph ∧
        ∀ k e', graph'.entries.lookup k = some e' → ∃ e, graph.entries.lookup k = some e ∧
          Good e'.cumulativeVote ∧
          α e'.cumulativeVote = α e.cumulativeVote ⊔ (if T.Descends k y then α vote else ⊥) := by
  intro fuel
  -- induction on the fuel: each turn moves to the parent node, of a lower number
  induction fuel with
  | zero =>
    intro graph y _ _ _ hfuel
    omega
  | succ fuel ih =>
    intro graph y hs hgood hy hfuel
    obtain ⟨ey, hey⟩ := exists_lookup hy
    obtain ⟨c, hc, hgc, hαc⟩ := hops.addAssign_ok _ _ (hgood y ey hey) hv
    set graph1 := graph.setEntry y { ey with cumulativeVote := c } with hgraph1
    have hsame1 : SameShape graph1 graph := SameShape.setEntry_vote hey c
    -- after the first turn: the vote is on `y`, every other node as before
    have hstep1 : ∀ k e1, graph1.entries.lookup k = some e1 → ∃ e, graph.entries.lookup k = some e ∧
        Good e1.cumulativeVote ∧
        α e1.cumulativeVote = α e.cumulativeVote ⊔ (if k = y then α vote else ⊥) := by
      intro k e1 hk
      by_cases hky : k = y
      · subst hky
        rw [hgraph1, lookup_setEntry_self] at hk
        cases hk
        exact ⟨ey, hey, hgc, by rw [if_pos rfl]; exact hαc⟩
      · rw [hgraph1, lookup_setEntry_ne _ _ hky] at hk
        exact ⟨e1, hk, hgood k e1 hk, by rw [if_neg hky, sup_bot_eq]⟩
    cases hp : ey.ancestorNode with
    | some p =>
      have hrun : addVote ops (fuel + 1) graph y vote = addVote ops fuel graph1 p vote := by
        simp [addVote, hey, hc, hp, hgraph1]
      -- the parent node is numbered below `y`, so the fuel left is enough for it
      have hpy := hs.number_lt_of_ancestorNode hey hp
      have hgood1 : ∀ h e, graph1.entries.lookup h = some e → Good e.cumulativeVote := by
        intro h e he
        exact (hstep1 h e he).choose_spec.2.1
      obtain ⟨graph', hrun', hsame', hspec'⟩ := ih graph1 p (hs.of_sameShape hsame1) hgood1
        ((hsame1.mem _).mpr (hs.ancestorNode_mem hey hp)) (by omega)
      refine ⟨graph', hrun.trans hrun', hsame'.trans hsame1, fun k e' hk => ?_⟩
      obtain ⟨e1, hk1, hg', hα'⟩ := hspec' k e' hk
      obtain ⟨e, hk0, -, hα1⟩ := hstep1 k e1 hk1
      refine ⟨e, hk0, hg', ?_⟩
      rw [hα', hα1]
      by_cases hky : k = y
      · -- the node itself is above its parent node
        subst hky
        have hnd : ¬ T.Descends k p := fun hd => absurd hd.1 (not_le.mpr hpy)
        rw [if_pos rfl, if_neg hnd, if_pos (BlockTree.descends_refl k), sup_bot_eq]
      · have hiff := hs.descends_iff_parent hey hp (mem_of_lookup hk0) hky
        rw [if_neg hky, sup_bot_eq]
        by_cases hd : T.Descends k y
        · rw [if_pos (hiff.mpr hd), if_pos hd]
        · rw [if_neg fun h => hd (hiff.mp h), if_neg hd]
    | none =>
      have hrun : addVote ops (fuel + 1) graph y vote = .ok graph1 := by
        simp [addVote, hey, hc, hp, hgraph1]
      -- the walk ends at the base, which only the base descends from
      have hyb : y = graph.base := by
        by_contra hne
        obtain ⟨m, -, -, hnode⟩ := hs.exists_parent hey hne
        rw [hp] at hnode
        cases hnode
      refine ⟨graph1, hrun, hsame1, fun k e1 hk => ?_⟩
      obtain ⟨e, hk0, hg1, hα1⟩ := hstep1 k e1 hk
      refine ⟨e, hk0, hg1, ?_⟩
      rw [hα1]
      by_cases hky : k = y
      · subst hky
        rw [if_pos rfl, if_pos (BlockTree.descends_refl _)]
      · have hnd : ¬ T.Descends k y := fun hd =>
          hky (hs.eq_base_of_descends (mem_of_lookup hk0) (hyb ▸ hd) |>.trans hyb.symm)
        rw [if_neg hky, if_neg hnd]

/-- The loop of `insert` from a node, with the graph's fuel, keeps the invariant with the vote
cast on the node. -/
theorem addVote_inv {graph : VoteGraph H V} {votes : List (H × V)}
    (hinv : Inv T α Good graph votes) (hops : ops.Lawful α Good) {hash : H}
    (hh : hash ∈ graph.entries) {vote : V} (hv : Good vote) :
    ∃ graph', addVote ops graph.fuel graph hash vote = .ok graph' ∧
      Inv T α Good graph' (votes ++ [(hash, vote)]) ∧ graph'.base = graph.base := by
  obtain ⟨e, he⟩ := exists_lookup hh
  have hfuel : T.number hash < graph.fuel := by
    have hle := number_le_maxNumber he
    rw [hinv.number hash e he] at hle
    unfold fuel
    omega
  obtain ⟨graph', hrun, hsame, hspec⟩ :=
    addVote_spec hops hv graph.fuel graph hash hinv.toShape hinv.good hh hfuel
  refine ⟨graph', hrun, ⟨hinv.toShape.of_sameShape hsame, ?_, ?_, ?_⟩, hsame.base⟩
  · intro t v htv
    rcases List.mem_append.mp htv with htv | htv
    · exact (hsame.mem t).mpr (hinv.votes_mem t v htv)
    · simp only [List.mem_singleton, Prod.mk.injEq] at htv
      rw [htv.1]
      exact (hsame.mem _).mpr hh
  · intro k e' hk
    obtain ⟨e0, hk0, -, hα⟩ := hspec k e' hk
    rw [hα, hinv.cumulative k e0 hk0, joinedVote_append]
  · intro k e' hk
    obtain ⟨e0, -, hg, -⟩ := hspec k e' hk
    exact hg

end AddVote

/-! ## `insert` -/

section Insert

variable {M : Type} [SemilatticeSup M] [OrderBot M] {α : V → M} {Good : V → Prop}
  {ops : VoteOps V} {graph : VoteGraph H V} {votes : List (H × V)}

/-- `append` of a block not above the base is the chain's error. -/
theorem append_notDescendent {chain : Chain H} (hchain : chain.Lawful T) (ops : VoteOps V)
    {hash : H} (number : ℕ) (hnd : ¬ T.Descends graph.base hash) :
    graph.append ops hash number chain = .ok (.error .notDescendent) := by
  have h : chain.ancestry graph.base hash = .error .notDescendent := by
    rw [hchain, if_neg]
    rintro ⟨hlt, hanc⟩
    exact hnd ⟨hlt.le, hanc⟩
  simp [append, h]

/-- A block that a node's edge holds lies above the base. -/
theorem Shape.descends_of_holds (hs : Shape T graph) {hash x : H} {number : ℕ}
    (hx : graph.EdgeHolds hash number x) : T.Descends graph.base hash := by
  obtain ⟨ex, m, hex, hpar, -, -, hm, hn, hh⟩ := hs.holds_parent hx
  have hdx : T.Descends hash x := by
    have h := @BlockTree.descends_ancestorAt H T x number hn.le
    rwa [hh] at h
  have hnum : T.number hash = number := by
    rw [← hh]
    exact T.number_ancestorAt x number hn.le
  refine (hs.descends_base x (mem_of_lookup hex)).of_descends_of_number_le hdx ?_
  have h1 := hs.baseNumber_le hpar.2.1
  rw [T.number_ancestorAt x m hpar.1.le] at h1
  rw [hs.base_number, hnum]
  omega

/-- **`VoteGraph::new`**, of a block at its number, satisfies the invariant with no vote cast:
the base alone, a head, with the default vote. -/
theorem new_inv (hops : ops.Lawful α Good) (base : H) :
    Inv T α Good (VoteGraph.new ops base (T.number base)) [] := by
  have hlook : ∀ k, (VoteGraph.new ops base (T.number base)).entries.lookup k =
      if k = base then some ⟨T.number base, [], [], ops.default⟩ else none := by
    intro k
    split_ifs with hk
    · rw [hk]
      exact AList.lookup_insert _
    · exact (AList.lookup_insert_ne hk).trans rfl
  have honly : ∀ k e, (VoteGraph.new ops base (T.number base)).entries.lookup k = some e →
      k = base ∧ e = ⟨T.number base, [], [], ops.default⟩ := by
    intro k e he
    rw [hlook] at he
    split_ifs at he with hk
    · cases he
      exact ⟨hk, rfl⟩
  have hbase : (VoteGraph.new ops base (T.number base)).entries.lookup base =
      some ⟨T.number base, [], [], ops.default⟩ := by
    rw [hlook, if_pos rfl]
  refine ⟨⟨mem_of_lookup hbase, rfl, ?_, ?_, ?_, ?_, ?_, ?_, List.nodup_singleton base, ?_, ?_⟩,
    by simp, ?_, ?_⟩
  · intro e he
    obtain ⟨-, rfl⟩ := honly _ e he
    rfl
  · intro k e he
    obtain ⟨rfl, rfl⟩ := honly k e he
    rfl
  · intro k hk
    obtain ⟨e, he⟩ := exists_lookup hk
    obtain ⟨rfl, -⟩ := honly k e he
    exact BlockTree.descends_refl k
  · intro k e he hkb
    exact absurd (honly k e he).1 hkb
  · intro p e he
    obtain ⟨-, rfl⟩ := honly p e he
    exact List.nodup_nil
  · -- the base's parent node is none, so no node has a parent
    intro p e he c
    obtain ⟨-, rfl⟩ := honly p e he
    simp only [List.not_mem_nil, false_iff, not_exists, not_and]
    intro ec hc
    obtain ⟨-, rfl⟩ := honly c ec hc
    simp [Entry.ancestorNode]
  · intro l
    constructor
    · intro hl
      rw [List.mem_singleton.mp hl]
      exact ⟨_, hbase, rfl⟩
    · rintro ⟨e, he, -⟩
      rw [(honly l e he).1]
      exact List.mem_singleton_self base
  · intro k hk
    obtain ⟨e, he⟩ := exists_lookup hk
    obtain ⟨rfl, -⟩ := honly k e he
    exact ⟨k, List.mem_singleton_self k, BlockTree.descends_refl k⟩
  · intro k e he
    obtain ⟨-, rfl⟩ := honly k e he
    exact hops.α_default
  · intro k e he
    obtain ⟨-, rfl⟩ := honly k e he
    exact hops.default_good

/-- **`insert`** on a lawful chain, of a good vote on a block at the block's number: for a block
on or above the base the block becomes a node if it is not one, the vote is added, and the
invariant holds with the vote cast; for any other block it is the chain's error.  It never
panics. -/
theorem insert_inv (hinv : Inv T α Good graph votes) {chain : Chain H} (hchain : chain.Lawful T)
    (hops : ops.Lawful α Good) (hash : H) {vote : V} (hv : Good vote) :
    (T.Descends graph.base hash → ∃ graph',
      graph.insert ops hash (T.number hash) vote chain = .ok (.ok graph') ∧
        Inv T α Good graph' (votes ++ [(hash, vote)]) ∧ graph'.base = graph.base) ∧
    (¬ T.Descends graph.base hash →
      graph.insert ops hash (T.number hash) vote chain = .ok (.error .notDescendent)) := by
  have hs := hinv.toShape
  by_cases hmem : hash ∈ graph.entries
  · -- a node already: only the vote is added
    have hfind : graph.findContainingNodes hash (T.number hash) = none := by
      simp [findContainingNodes, hmem]
    refine ⟨fun _ => ?_, fun hnd => absurd (hs.descends_base hash hmem) hnd⟩
    obtain ⟨graph', hrun, hinv', hbase'⟩ := addVote_inv hinv hops hmem hv
    exact ⟨graph', by simp [insert, hfind, hrun, Except.map], hinv', hbase'⟩
  · obtain ⟨containing, hfind, hnodup, hspec⟩ : ∃ containing,
        graph.findContainingNodes hash (T.number hash) = some containing ∧ containing.Nodup ∧
          ∀ x, x ∈ containing ↔ graph.EdgeHolds hash (T.number hash) x :=
      findContainingNodes_spec hs hmem
    cases containing with
    | nil =>
      -- held by no edge: a new leaf, or not above the base
      have hnone : ∀ x, ¬ graph.EdgeHolds hash (T.number hash) x := fun x hx => by
        simpa using (hspec x).mpr hx
      refine ⟨fun hd => ?_, fun hnd => ?_⟩
      · obtain ⟨graph1, happ, hinv1, hmem1, hbase1⟩ := append_inv hinv hchain hops hmem hd hnone
        obtain ⟨graph', hrun, hinv', hbase'⟩ := addVote_inv hinv1 hops hmem1 hv
        exact ⟨graph', by simp [insert, hfind, happ, hrun, Except.map], hinv', hbase'.trans hbase1⟩
      · simp [insert, hfind, append_notDescendent hchain ops (T.number hash) hnd]
        rfl
    | cons x rest =>
      -- held by edges: a new node between, above the base
      have hd : T.Descends graph.base hash := hs.descends_of_holds ((hspec x).mp List.mem_cons_self)
      refine ⟨fun _ => ?_, fun hnd => absurd hd hnd⟩
      obtain ⟨graph1, hib, hinv1, hmem1, hbase1⟩ :=
        introduceBranch_inv hinv hops hnodup (List.cons_ne_nil x rest) hspec hmem
      obtain ⟨graph', hrun, hinv', hbase'⟩ := addVote_inv hinv1 hops hmem1 hv
      exact ⟨graph', by simp [insert, hfind, hib, hrun, Except.map], hinv', hbase'.trans hbase1⟩

end Insert

end VoteGraph

end Grandpa
end Yeeroot

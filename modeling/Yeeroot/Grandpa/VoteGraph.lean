import Yeeroot.Grandpa.Primitives

/-!
# The vote-graph

`vote_graph.rs` of `core/finality-grandpa` keeps, for one round, the blocks that votes were
cast on and the forks between them: a tree of *vote-nodes* rooted at the round's base.  Each
node stores its number, the hashes of the blocks on the edge down to its parent node
(`ancestors`, from its own parent block down to the parent node, inclusive), its child nodes
(`descendents`) and its *cumulative vote*, the votes cast on it or on any block above it.

* `insert` adds a vote.  A block that is not yet a node either lies inside the edges of some
  nodes (`find_containing_nodes`), and becomes a node that splits them (`introduce_branch`), or
  becomes a new leaf hanging off the highest node below it (`append`).  The vote is then added
  to the node and to every node below it.
* `find_ghost` walks up from a starting node through the children whose vote passes a
  condition, and `ghost_find_merge_point` then walks up the edges of the last node's children
  for the highest block whose children's votes together pass it.  `find_ancestor` walks down
  to the first node that passes and back up to its merge point on the canonical chain.

Modelling choices:

* the `HashMap` of entries is an `AList`; an update through `get_mut` is an insert under the
  same key, which is the same map;
* the `HashSet` of heads is a list in its iteration order;
* the sorted vector `ghost_find_merge_point` searches by binary search is a list searched by
  key: both find the entry of a hash, or insert one;
* the `loop`s walk the nodes with a fuel, `fuel`, one more than the highest number of a
  node: each turn moves to a lower node or to a higher one, so the fuel is never spent on a
  graph whose edges go down (`VoteGraph.Shape` in `Yeeroot.Grandpa.VoteGraphInv`, where the
  walks of `insert` are proved with it, and `fuel_enough` in
  `Yeeroot.Grandpa.VoteGraphSearch` for the searches);
* an `expect`, `assert!` or `panic!` is a `Panic`; the chain's error is the inner `Except`;
* `V` is any vote value with a default and an in-place addition, which may panic (the round
  merges bitfields with an `expect`).
-/

namespace Yeeroot
namespace Grandpa

open Rust

/-! The `do` blocks below run in `Except`; these unfold a bind on a known result. -/

@[simp]
theorem ok_bind {ε α β : Type} (a : α) (f : α → Except ε β) : (Except.ok a >>= f) = f a := rfl

@[simp]
theorem error_bind {ε α β : Type} (e : ε) (f : α → Except ε β) :
    (Except.error e >>= f) = Except.error e := rfl

/-- `Entry`: a vote-node.  `ancestors[0]` is its parent block and the last ancestor its
parent node. -/
structure Entry (H V : Type) where
  number : ℕ
  ancestors : List H
  descendents : List H
  cumulativeVote : V

namespace Entry

variable {H V : Type}

/-- `Entry::ancestor_block`: the block of the given number on the node's edge, if the edge
reaches it. -/
def ancestorBlock (entry : Entry H V) (number : ℕ) : Option H :=
  if number ≥ entry.number then none
  else
    let offset := entry.number - number - 1
    entry.ancestors[offset]?

/-- `Entry::in_direct_ancestry`: whether the block of the given number on the node's edge is
the given one; `none` when the edge does not reach that number. -/
def inDirectAncestry [DecidableEq H] (entry : Entry H V) (hash : H) (number : ℕ) : Option Bool :=
  (entry.ancestorBlock number).map fun h => decide (h = hash)

/-- `Entry::ancestor_node`: the parent node. -/
def ancestorNode (entry : Entry H V) : Option H := entry.ancestors.getLast?

end Entry

/-- `Subchain`: hashes in forward order and the number of the last. -/
structure Subchain (H : Type) where
  hashes : List H
  bestNumber : ℕ

namespace Subchain

variable {H : Type}

/-- `Subchain::blocks_reverse`: the blocks from the last down, with their numbers. -/
def blocksReverse (subchain : Subchain H) : List (H × ℕ) :=
  subchain.hashes.reverse.zipIdx.map fun (x, count) => (x, subchain.bestNumber - count)

/-- `Subchain::best`. -/
def best (subchain : Subchain H) : Option (H × ℕ) :=
  subchain.hashes.getLast?.map fun x => (x, subchain.bestNumber)

end Subchain

/-- The bounds `V: AddAssign + Default` of the vote value: a default and an in-place
addition, which may panic. -/
structure VoteOps (V : Type) where
  default : V
  addAssign : V → V → Except Panic V

/-- `VoteGraph`. -/
structure VoteGraph (H V : Type) [DecidableEq H] where
  entries : AList fun _ : H => Entry H V
  heads : List H
  base : H
  baseNumber : ℕ

namespace VoteGraph

variable {H V : Type} [DecidableEq H]

/-! ## Reading the graph -/

/-- The highest number of a node. -/
def maxNumber (graph : VoteGraph H V) : ℕ :=
  graph.entries.entries.foldr (fun entry acc => max entry.2.number acc) 0

theorem number_le_maxNumber {graph : VoteGraph H V} {hash : H} {entry : Entry H V}
    (h : graph.entries.lookup hash = some entry) : entry.number ≤ graph.maxNumber := by
  have hmem : (⟨hash, entry⟩ : Sigma fun _ : H => Entry H V) ∈ graph.entries.entries :=
    AList.mem_lookup_iff.mp h
  unfold maxNumber
  generalize graph.entries.entries = l at hmem
  induction l with
  | nil => simp at hmem
  | cons s l ih =>
    rw [List.foldr_cons]
    rcases List.mem_cons.mp hmem with rfl | hmem
    · exact le_max_left _ _
    · exact le_trans (ih hmem) (le_max_right _ _)

/-- The fuel of the graph's walks: one more than the highest number of a node. -/
def fuel (graph : VoteGraph H V) : ℕ := graph.maxNumber + 1

/-- `entries.get(hash).expect(msg)`. -/
def getNode (graph : VoteGraph H V) (hash : H) (msg : String) : Except Panic (Entry H V) :=
  match graph.entries.lookup hash with
  | some entry => .ok entry
  | none => .error (Panic.expect msg)

/-- An entry stored under its hash, new or replacing the old one. -/
def setEntry (graph : VoteGraph H V) (hash : H) (entry : Entry H V) : VoteGraph H V :=
  { graph with entries := graph.entries.insert hash entry }

@[simp]
theorem getNode_of_lookup {graph : VoteGraph H V} {hash : H} {entry : Entry H V} (msg : String)
    (h : graph.entries.lookup hash = some entry) : graph.getNode hash msg = .ok entry := by
  simp [getNode, h]

@[simp]
theorem lookup_setEntry_self (graph : VoteGraph H V) (hash : H) (entry : Entry H V) :
    (graph.setEntry hash entry).entries.lookup hash = some entry :=
  AList.lookup_insert _

theorem lookup_setEntry_ne (graph : VoteGraph H V) {hash k : H} (entry : Entry H V)
    (hne : k ≠ hash) : (graph.setEntry hash entry).entries.lookup k = graph.entries.lookup k :=
  AList.lookup_insert_ne hne

@[simp]
theorem mem_setEntry (graph : VoteGraph H V) (hash k : H) (entry : Entry H V) :
    k ∈ (graph.setEntry hash entry).entries ↔ k = hash ∨ k ∈ graph.entries :=
  AList.mem_insert _

@[simp]
theorem setEntry_heads (graph : VoteGraph H V) (hash : H) (entry : Entry H V) :
    (graph.setEntry hash entry).heads = graph.heads := rfl

@[simp]
theorem setEntry_base (graph : VoteGraph H V) (hash : H) (entry : Entry H V) :
    (graph.setEntry hash entry).base = graph.base := rfl

@[simp]
theorem setEntry_baseNumber (graph : VoteGraph H V) (hash : H) (entry : Entry H V) :
    (graph.setEntry hash entry).baseNumber = graph.baseNumber := rfl

/-- `HashSet::insert` on the heads. -/
def insertHead (heads : List H) (hash : H) : List H :=
  if hash ∈ heads then heads else heads ++ [hash]

@[simp]
theorem mem_insertHead (heads : List H) (hash l : H) :
    l ∈ insertHead heads hash ↔ l ∈ heads ∨ l = hash := by
  unfold insertHead
  split_ifs with h
  · constructor
    · exact .inl
    · rintro (hl | rfl) <;> assumption
  · simp

theorem nodup_insertHead {heads : List H} (h : heads.Nodup) (hash : H) :
    (insertHead heads hash).Nodup := by
  unfold insertHead
  split_ifs with hmem
  · exact h
  · refine List.nodup_append.mpr ⟨h, List.nodup_singleton hash, fun a ha b hb => ?_⟩
    rw [List.mem_singleton.mp hb]
    rintro rfl
    exact hmem ha

/-! ## Construction -/

/-- `VoteGraph::new`: the base alone, with the default vote. -/
def new (ops : VoteOps V) (baseHash : H) (baseNumber : ℕ) : VoteGraph H V :=
  ⟨AList.insert baseHash ⟨baseNumber, [], [], ops.default⟩ ∅, [baseHash], baseHash, baseNumber⟩

/-- `VoteGraph::base`. -/
def base' (graph : VoteGraph H V) : H × ℕ := (graph.base, graph.baseNumber)

/-- `VoteGraph::adjust_base`: move the base down to the last block of an ancestry proof of
the old base (from the old base's parent down), which becomes the old base's edge. -/
def adjustBase (graph : VoteGraph H V) (ancestryProof : List H) : Except Panic (VoteGraph H V) :=
  match ancestryProof.getLast? with
  | none => pure graph
  | some newHash =>
    if ancestryProof.length > graph.baseNumber then pure graph
    else do
      let newNumber := graph.baseNumber - ancestryProof.length
      let oldEntry ← graph.getNode graph.base "base hash entry always exists; qed"
      let entry : Entry H V := ⟨newNumber, [], [graph.base], oldEntry.cumulativeVote⟩
      let graph := graph.setEntry graph.base
        { oldEntry with ancestors := oldEntry.ancestors ++ ancestryProof }
      pure { graph.setEntry newHash entry with base := newHash, baseNumber := newNumber }

/-! ## Finding the nodes whose edges hold a block -/

/-- The walk of `find_containing_nodes` from one head down, with the nodes found so far and
those visited.  A node already visited ends the walk; a node whose edge holds the block at
that number is found; one whose edge holds another block there ends the walk; one whose edge
does not reach the number passes the walk on to its parent node. -/
def walkHead (graph : VoteGraph H V) (hash : H) (number : ℕ) :
    ℕ → H → List H × List H → List H × List H
  | 0, _, acc => acc
  | fuel + 1, head, (containing, visited) =>
    match graph.entries.lookup head with
    | none => (containing, visited)
    | some activeEntry =>
      if head ∈ visited then (containing, visited)
      else
        let visited := visited ++ [head]
        match activeEntry.inDirectAncestry hash number with
        | some true => (containing ++ [head], visited)
        | some false => (containing, visited)
        | none =>
          match activeEntry.ancestorNode with
          | some prev => walkHead graph hash number fuel prev (containing, visited)
          | none => (containing, visited)

/-- `find_containing_nodes`: `none` when the block is a node already; otherwise the nodes
whose edges hold it, found by walking down from every head. -/
def findContainingNodes (graph : VoteGraph H V) (hash : H) (number : ℕ) : Option (List H) :=
  if hash ∈ graph.entries then none
  else
    some (graph.heads.foldl (fun acc head => graph.walkHead hash number graph.fuel head acc)
      ([], [])).1

/-! ## Adding a node -/

/-- One turn of `introduce_branch`'s fold: the descendent's edge is cut at the block, the new
node is built from the part below (on the first turn only), and takes the descendent as a
child and its vote. -/
def introduceBranchStep (ops : VoteOps V) (ancestorNumber : ℕ)
    (acc : VoteGraph H V × Option (Entry H V × Option H)) (descendent : H) :
    Except Panic (VoteGraph H V × Option (Entry H V × Option H)) := do
  let (graph, maybeEntry) := acc
  let entry ← graph.getNode descendent "this function only invoked with keys of vote-nodes; qed"
  let prevAncestor := entry.ancestorNode
  if ancestorNumber > entry.number then
    throw (Panic.expect "this function only invoked with direct ancestors; qed")
  let offsetUsize := entry.number - ancestorNumber
  let newAncestors := entry.ancestors.drop offsetUsize
  -- the drain empties the tail of the edge whether or not the new node is built from it
  let graph := graph.setEntry descendent { entry with ancestors := entry.ancestors.take offsetUsize }
  let (newEntry, prev) := maybeEntry.getD (⟨ancestorNumber, newAncestors, [], ops.default⟩, prevAncestor)
  let cumulativeVote ← ops.addAssign newEntry.cumulativeVote entry.cumulativeVote
  let newEntry := { newEntry with
    descendents := newEntry.descendents ++ [descendent]
    cumulativeVote := cumulativeVote }
  pure (graph, some (newEntry, prev))

/-- `introduce_branch`: the block becomes a node splitting the edges of the given nodes; the
old parent node trades them for it as a child. -/
def introduceBranch (ops : VoteOps V) (graph : VoteGraph H V) (descendents : List H)
    (ancestorHash : H) (ancestorNumber : ℕ) : Except Panic (VoteGraph H V) := do
  let (graph, producedEntry) ←
    descendents.foldlM (introduceBranchStep ops ancestorNumber) (graph, none)
  match producedEntry with
  | none => pure graph
  | some (newEntry, prevAncestor) =>
    let graph ← match prevAncestor with
      | some prevAncestor => do
        let prevAncestorNode ← graph.getNode prevAncestor "Prior ancestor is referenced from a node; qed"
        let kept := prevAncestorNode.descendents.filter fun h => h ∉ newEntry.descendents
        pure (graph.setEntry prevAncestor
          { prevAncestorNode with descendents := kept ++ [ancestorHash] })
      | none => pure graph
    if ancestorHash ∈ graph.entries then
      throw (Panic.expect
        "thus function is only invoked when there is no entry for the ancestor already; qed")
    pure (graph.setEntry ancestorHash newEntry)

/-- `append`: the block becomes a leaf hanging off the first node of its ancestry, which
stops being a head. -/
def append (ops : VoteOps V) (graph : VoteGraph H V) (hash : H) (number : ℕ) (chain : Chain H) :
    Except Panic (Except Error (VoteGraph H V)) :=
  match chain.ancestry graph.base hash with
  | .error e => .ok (.error e)
  | .ok ancestry =>
    let ancestry := ancestry ++ [graph.base]
    match ((ancestry ++ [graph.base]).zipIdx.find? fun (ancestor, _) => ancestor ∈ graph.entries) with
    | none => .error (Panic.expect
        "base is kept; chain returns ancestry only if the block is a descendent of base; qed")
    | some (ancestor, ancestorIndex) =>
      match graph.entries.lookup ancestor, ancestry[ancestorIndex]? with
      | some entry, some ancestorHash =>
        let graph := graph.setEntry ancestor { entry with descendents := entry.descendents ++ [hash] }
        let graph := graph.setEntry hash ⟨number, ancestry.take (ancestorIndex + 1), [], ops.default⟩
        .ok (.ok { graph with heads := insertHead (graph.heads.erase ancestorHash) hash })
      | _, _ => .error (Panic.indexOutOfBounds ancestry.length ancestorIndex)

/-- The loop of `insert` that adds the vote to the node and every node below it. -/
def addVote (ops : VoteOps V) : ℕ → VoteGraph H V → H → V → Except Panic (VoteGraph H V)
  | 0, graph, _, _ => .ok graph
  | fuel + 1, graph, inspectingHash, vote => do
    let activeEntry ← graph.getNode inspectingHash
      "vote-node and its ancestry always exist after initial phase; qed"
    let cumulativeVote ← ops.addAssign activeEntry.cumulativeVote vote
    let graph := graph.setEntry inspectingHash { activeEntry with cumulativeVote := cumulativeVote }
    match activeEntry.ancestorNode with
    | some parent => addVote ops fuel graph parent vote
    | none => .ok graph

/-- `VoteGraph::insert`: make the block a node if it is not one, then add the vote along the
nodes from it down to the base. -/
def insert (ops : VoteOps V) (graph : VoteGraph H V) (hash : H) (number : ℕ) (vote : V)
    (chain : Chain H) : Except Panic (Except Error (VoteGraph H V)) := do
  let result ← match graph.findContainingNodes hash number with
    | some containing =>
      if containing.isEmpty then graph.append ops hash number chain
      else (graph.introduceBranch ops containing hash number).map .ok
    | none => pure (.ok graph)
  match result with
  | .error e => pure (.error e)
  | .ok graph => (addVote ops graph.fuel graph hash vote).map .ok

/-! ## The GHOST -/

/-- The running sums of `ghost_find_merge_point`, kept by block hash. -/
def addToBlock (ops : VoteOps V) (descendentBlocks : List (H × V)) (block : H) (vote : V) :
    Except Panic (List (H × V) × Option V) :=
  match descendentBlocks.find? (fun (x, _) => x = block) with
  | some (_, sum) => do
    let sum ← ops.addAssign sum vote
    pure (descendentBlocks.map (fun (x, s) => if x = block then (x, sum) else (x, s)), some sum)
  | none => pure (descendentBlocks ++ [(block, vote)], none)

/-- One pass of `ghost_find_merge_point`'s inner loop over the descendent nodes, at the
height `baseNumber + offset`: the first block whose sum passes the condition is the new
best.  A block met for the first time takes the node's vote unchecked. -/
def mergeScan (ops : VoteOps V) (condition : V → Except Panic Bool) (height : ℕ) :
    List (Entry H V) → List (H × V) → Except Panic (List (H × V) × Option H)
  | [], descendentBlocks => pure (descendentBlocks, none)
  | dNode :: rest, descendentBlocks =>
    match dNode.ancestorBlock height with
    | none => mergeScan ops condition height rest descendentBlocks
    | some dBlock => do
      let (descendentBlocks, found) ← addToBlock ops descendentBlocks dBlock dNode.cumulativeVote
      match found with
      | some sum =>
        if ← condition sum then pure (descendentBlocks, some dBlock)
        else mergeScan ops condition height rest descendentBlocks
      | none => mergeScan ops condition height rest descendentBlocks

/-- The outer loop of `ghost_find_merge_point`: one block higher per turn while the blocks
of that height on the remaining descendents' edges have a new best. -/
def mergeLoop [Inhabited H] (ops : VoteOps V) (condition : V → Except Panic Bool) (baseNumber : ℕ) :
    ℕ → ℕ → ℕ → List (Entry H V) → List H → Except Panic (Subchain H)
  | 0, _, bestNumber, _, hashes => pure ⟨hashes, bestNumber⟩
  | fuel + 1, offset, bestNumber, descendentNodes, hashes => do
    let offset := offset + 1
    let (_, newBest) ← mergeScan ops condition (baseNumber + offset) descendentNodes []
    match newBest with
    | some newBest =>
      let bestNumber := bestNumber + 1
      let descendentNodes := descendentNodes.filter fun n =>
        (n.inDirectAncestry newBest bestNumber).getD false
      mergeLoop ops condition baseNumber fuel offset bestNumber descendentNodes (hashes ++ [newBest])
    | none => pure ⟨hashes, bestNumber⟩

/-- `ghost_find_merge_point`: from a node that passes the condition, the highest block above
it at which its (constrained) children's votes together still pass. -/
def ghostFindMergePoint [Inhabited H] (ops : VoteOps V) (graph : VoteGraph H V) (nodeKey : H)
    (activeNode : Entry H V) (forceConstrain : Option (H × ℕ)) (condition : V → Except Panic Bool) :
    Except Panic (Subchain H) := do
  let descendentNodes ← activeNode.descendents.mapM fun h =>
    graph.getNode h "descendents always present in node storage; qed"
  let descendentNodes := descendentNodes.filter fun n =>
    match forceConstrain with
    | some (h, num) => (n.inDirectAncestry h num).getD false
    | none => true
  mergeLoop ops condition activeNode.number graph.fuel 0 activeNode.number descendentNodes [nodeKey]

/-- The child step of `find_ghost`: the first child node, in order, that has the constrained
block in its ancestry (when constrained) and passes the condition. -/
def nextDescendent (graph : VoteGraph H V) (condition : V → Except Panic Bool)
    (constrain : Option (H × ℕ)) : List H → Except Panic (Option (H × Entry H V))
  | [] => pure none
  | d :: rest => do
    let node ← graph.getNode d "node either base or referenced by other in graph; qed"
    let constrained := match constrain with
      | some (h, n) => (node.inDirectAncestry h n).getD false
      | none => true
    -- the iterator's second filter runs the condition only on a constrained node
    if constrained then
      if ← condition node.cumulativeVote then return some (d, node)
    nextDescendent graph condition constrain rest

/-- The breadth-first loop of `find_ghost`: up through the first passing child while there is
one; after the first hop the search is no longer constrained. -/
def ghostLoop (graph : VoteGraph H V) (condition : V → Except Panic Bool)
    (currentBest : Option (H × ℕ)) :
    ℕ → H → Entry H V → Bool → Except Panic (H × Entry H V × Bool)
  | 0, nodeKey, activeNode, forceConstrain => pure (nodeKey, activeNode, forceConstrain)
  | fuel + 1, nodeKey, activeNode, forceConstrain => do
    let constrain := if forceConstrain then currentBest else none
    match ← graph.nextDescendent condition constrain activeNode.descendents with
    | some (key, node) => ghostLoop graph condition currentBest fuel key node false
    | none => pure (nodeKey, activeNode, forceConstrain)

/-- `find_ghost`: the highest block of the heaviest chain whose vote passes the condition,
starting from `current_best` (or from the base when it is not in the graph). -/
def findGhost [Inhabited H] (ops : VoteOps V) (graph : VoteGraph H V)
    (currentBest : Option (H × ℕ)) (condition : V → Except Panic Bool) :
    Except Panic (Option (H × ℕ)) := do
  let start ← match currentBest with
    | none => pure none
    | some (hash, number) =>
      match graph.findContainingNodes hash number with
      | none => pure (some (hash, false))
      | some [] => pure none
      | some (x :: _) => do
        let node ← graph.getNode x "node either base or referenced by other in graph; qed"
        match node.ancestorNode with
        | some ancestor => pure (some (ancestor, true))
        | none => throw (Panic.expect "node containing non-node in history always has ancestor; qed")
  let (nodeKey, forceConstrain) := start.getD (graph.base, false)
  let activeNode ← graph.getNode nodeKey "node either base or referenced by other in graph; qed"
  if !(← condition activeNode.cumulativeVote) then return none
  let (nodeKey, activeNode, forceConstrain) ←
    ghostLoop graph condition currentBest graph.fuel nodeKey activeNode forceConstrain
  let subchain ← graph.ghostFindMergePoint ops nodeKey activeNode
    (if forceConstrain then currentBest else none) condition
  pure subchain.best

/-- The walk of `find_ancestor` down from a node to the first one that passes the condition,
with the node above it on the way (the canonical one). -/
def ancestorLoop (graph : VoteGraph H V) (condition : V → Except Panic Bool) :
    ℕ → H → Entry H V → Entry H V → Except Panic (Option (H × Entry H V × Entry H V))
  | 0, nodeKey, activeNode, canonicalNode => pure (some (nodeKey, activeNode, canonicalNode))
  | fuel + 1, nodeKey, activeNode, canonicalNode => do
    if ← condition activeNode.cumulativeVote then return some (nodeKey, activeNode, canonicalNode)
    match activeNode.ancestorNode with
    | none => pure none
    | some nodeKey' => do
      let activeNode' ← graph.getNode nodeKey' "node either base or referenced by other in graph; qed"
      ancestorLoop graph condition fuel nodeKey' activeNode' activeNode

/-- `find_ancestor`: the highest block that is the given one or below it and passes the
condition. -/
def findAncestor [Inhabited H] (ops : VoteOps V) (graph : VoteGraph H V) (hash : H) (number : ℕ)
    (condition : V → Except Panic Bool) : Except Panic (Option (H × ℕ)) := do
  let start ← match graph.findContainingNodes hash number with
    | none => do
      let node ← graph.getNode hash "node either base or referenced by other in graph; qed"
      if ← condition node.cumulativeVote then return some (hash, number)
      match node.ancestorNode with
      | none => return none
      | some key => pure (key, node)
    | some [] => return none
    | some (x :: _) => do
      let node ← graph.getNode x "node either base or referenced by other in graph; qed"
      match node.ancestorNode with
      | some key => pure (key, node)
      | none => throw (Panic.expect "node containing block in ancestry has ancestor node; qed")
  let (nodeKey, canonicalNode) := start
  let activeNode ← graph.getNode nodeKey "node either base or referenced by other in graph; qed"
  match ← ancestorLoop graph condition graph.fuel nodeKey activeNode canonicalNode with
  | none => pure none
  | some (nodeKey, activeNode, canonicalNode) =>
    let goodSubchain ← graph.ghostFindMergePoint ops nodeKey activeNode none condition
    pure (goodSubchain.blocksReverse.find? fun (goodHash, goodNumber) =>
      (canonicalNode.inDirectAncestry goodHash goodNumber).getD false)

end VoteGraph

end Grandpa
end Yeeroot

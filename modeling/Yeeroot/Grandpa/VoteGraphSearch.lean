import Yeeroot.Grandpa.VoteGraphInv

/-!
# The vote-graph's searches never panic

`find_ghost` and `find_ancestor` of `vote_graph.rs` walk the graph by its `descendents` and
its parent nodes, look each node up with an `expect`, sum the votes of the descendents at each
height with the vote's addition, and run the caller's condition on the sums.  On a graph of
the shape `insert` keeps (`VoteGraph.Shape`), whose cumulative votes are good, both searches
return, for a condition that does not panic on good values and an addition that succeeds on
them (`SearchSafe`), whatever block they start from.

The walk's lemmas carry what each step keeps: a node looked up is the one stored under its
key (`nextDescendent_ok`, `ghostLoop_ok`, `ancestorLoop_ok`), and a running sum of good votes
is good (`addToBlock_ok`, `mergeScan_ok`).  The loops' fuel is enough (`fuel_enough`): each
turn moves to a node of another number, or looks one block higher, so more fuel changes no
result.

`find_ancestor` is documented to return the highest block that is the given one or an ancestor
of it.  It need not: for a block inside the edges of two vote-nodes that share blocks above
it, the merge point it climbs to from the parent node can lie above the block
(`findAncestor_above_shared_edge`).
-/

namespace Yeeroot
namespace Grandpa

open Rust

variable {H V : Type} [DecidableEq H]

/-- What the searches ask of the vote values: the addition succeeds on good values and stays
good, and the condition does not panic on them. -/
structure SearchSafe (ops : VoteOps V) (Good : V → Prop) (condition : V → Except Panic Bool) :
    Prop where
  addAssign_ok : ∀ a b, Good a → Good b → ∃ c, ops.addAssign a b = .ok c ∧ Good c
  condition_ok : ∀ v, Good v → ∃ b, condition v = .ok b

/-! The searches' `do` blocks run in `Except`; these read a `pure` and a result that is no
error. -/

@[simp]
theorem pure_eq_ok {ε α : Type} (a : α) : (pure a : Except ε α) = .ok a := rfl

theorem exists_ok_of_ne_error {ε α : Type} {x : Except ε α} (h : ∀ e, x ≠ .error e) :
    ∃ r, x = .ok r := by
  cases x with
  | error e => exact absurd rfl (h e)
  | ok r => exact ⟨r, rfl⟩

namespace VoteGraph

variable {T : BlockTree H} {graph : VoteGraph H V} {ops : VoteOps V} {Good : V → Prop}
  {condition : V → Except Panic Bool}

/-! ## The merge point -/

section MergePoint

variable (hsafe : SearchSafe ops Good condition)
include hsafe

/-- Adding a good vote to the sums of good votes gives good sums. -/
theorem addToBlock_ok {blocks : List (H × V)} (hblocks : ∀ p ∈ blocks, Good p.2) (block : H)
    {vote : V} (hvote : Good vote) :
    ∃ blocks' found, addToBlock ops blocks block vote = .ok (blocks', found) ∧
      (∀ p ∈ blocks', Good p.2) ∧ ∀ sum, found = some sum → Good sum := by
  unfold addToBlock
  -- split on the definition's own search of the running sums
  split
  · rename_i x sum hfind
    have hsum : Good sum := hblocks _ (List.mem_of_find?_eq_some hfind)
    obtain ⟨c, hc, hgood⟩ := hsafe.addAssign_ok sum vote hsum hvote
    rw [hc]
    refine ⟨_, some c, rfl, ?_, by simpa using hgood⟩
    intro p hp
    obtain ⟨⟨qx, qs⟩, hq, rfl⟩ := List.mem_map.mp hp
    by_cases hqb : qx = block
    · simpa [hqb] using hgood
    · simpa [hqb] using hblocks _ hq
  · refine ⟨blocks ++ [(block, vote)], none, rfl, ?_, by simp⟩
    intro p hp
    rcases List.mem_append.mp hp with hp | hp
    · exact hblocks p hp
    · rw [List.mem_singleton.mp hp]
      exact hvote

/-- One pass over the descendent nodes at a height returns, their votes being good. -/
theorem mergeScan_ok (height : ℕ) :
    ∀ (nodes : List (Entry H V)) (blocks : List (H × V)),
      (∀ n ∈ nodes, Good n.cumulativeVote) → (∀ p ∈ blocks, Good p.2) →
        ∃ r, mergeScan ops condition height nodes blocks = .ok r
  | [], blocks, _, _ => ⟨_, rfl⟩
  | node :: rest, blocks, hnodes, hblocks => by
    have hrest : ∀ n ∈ rest, Good n.cumulativeVote := fun n hn =>
      hnodes n (List.mem_cons_of_mem _ hn)
    cases hblock : node.ancestorBlock height with
    | none =>
      obtain ⟨r, hr⟩ := mergeScan_ok height rest blocks hrest hblocks
      exact ⟨r, by simp [mergeScan, hblock, hr]⟩
    | some block =>
      obtain ⟨blocks', found, hadd, hblocks', hfound⟩ :=
        addToBlock_ok hsafe hblocks block (hnodes node List.mem_cons_self)
      obtain ⟨r, hr⟩ := mergeScan_ok height rest blocks' hrest hblocks'
      cases found with
      | none => exact ⟨r, by simp [mergeScan, hblock, hadd, hr]⟩
      | some sum =>
        -- the sum is good, so the condition returns
        obtain ⟨b, hb⟩ := hsafe.condition_ok sum (hfound sum rfl)
        cases b with
        | true => exact ⟨(blocks', some block), by simp [mergeScan, hblock, hadd, hb]⟩
        | false => exact ⟨r, by simp [mergeScan, hblock, hadd, hb, hr]⟩

/-- The merge loop returns: each turn scans good nodes, and the filter keeps them good. -/
theorem mergeLoop_ok [Inhabited H] (baseNumber : ℕ) :
    ∀ (fuel offset bestNumber : ℕ) (nodes : List (Entry H V)) (hashes : List H),
      (∀ n ∈ nodes, Good n.cumulativeVote) →
        ∃ subchain, mergeLoop ops condition baseNumber fuel offset bestNumber nodes hashes =
          .ok subchain
  | 0, _, _, _, _, _ => ⟨_, rfl⟩
  | fuel + 1, offset, bestNumber, nodes, hashes, hnodes => by
    obtain ⟨⟨blocks, newBest⟩, hscan⟩ :=
      mergeScan_ok hsafe (baseNumber + (offset + 1)) nodes [] hnodes (by simp)
    cases newBest with
    | none => exact ⟨⟨hashes, bestNumber⟩, by simp [mergeLoop, hscan]⟩
    | some newBest =>
      obtain ⟨subchain, hloop⟩ := mergeLoop_ok baseNumber fuel (offset + 1) (bestNumber + 1)
        (nodes.filter fun n => (n.inDirectAncestry newBest (bestNumber + 1)).getD false)
        (hashes ++ [newBest]) fun n hn => hnodes n (List.mem_filter.mp hn).1
      exact ⟨subchain, by simp [mergeLoop, hscan, hloop]⟩

end MergePoint

/-- Nodes looked up by keys of the graph are found, each the entry of its key. -/
theorem mapM_getNode (msg : String) :
    ∀ keys : List H, (∀ h ∈ keys, h ∈ graph.entries) →
      ∃ nodes, keys.mapM (fun h => graph.getNode h msg) = .ok nodes ∧
        ∀ n ∈ nodes, ∃ h ∈ keys, graph.entries.lookup h = some n
  | [], _ => ⟨[], rfl, by simp⟩
  | h :: rest, hkeys => by
    obtain ⟨e, he⟩ := exists_lookup (hkeys h List.mem_cons_self)
    obtain ⟨nodes, hnodes, hmem⟩ :=
      mapM_getNode msg rest fun k hk => hkeys k (List.mem_cons_of_mem _ hk)
    refine ⟨e :: nodes, by simp [he, hnodes], ?_⟩
    intro n hn
    rcases List.mem_cons.mp hn with rfl | hn
    · exact ⟨h, List.mem_cons_self, he⟩
    · obtain ⟨k, hk, hkn⟩ := hmem n hn
      exact ⟨k, List.mem_cons_of_mem _ hk, hkn⟩

/-- The descendents of a node are nodes. -/
theorem Shape.descendents_mem (hs : Shape T graph) {p : H} {e : Entry H V}
    (he : graph.entries.lookup p = some e) : ∀ c ∈ e.descendents, c ∈ graph.entries := by
  intro c hc
  obtain ⟨ec, hec, -⟩ := (hs.mem_descendents p e he c).mp hc
  exact mem_of_lookup hec

/-- A node whose edge holds a block has a parent node. -/
theorem Shape.parent_of_holds (hs : Shape T graph) {hash x : H} {number : ℕ} (hx : graph.EdgeHolds hash number x) :
    ∃ ex p, graph.entries.lookup x = some ex ∧ ex.ancestorNode = some p ∧ p ∈ graph.entries := by
  obtain ⟨ex, hex, hblock⟩ := hx
  obtain ⟨hne, -⟩ := hs.ancestorBlock_eq_some hex hblock
  obtain ⟨m, -, -, hnode⟩ := hs.exists_parent hex hne
  exact ⟨ex, _, hex, hnode, hs.ancestorNode_mem hex hnode⟩

section Search

variable (hs : Shape T graph)
  (hgood : ∀ h e, graph.entries.lookup h = some e → Good e.cumulativeVote)
  (hsafe : SearchSafe ops Good condition)
include hs hgood hsafe

/-- `ghost_find_merge_point` returns from a node of the graph. -/
theorem ghostFindMergePoint_ok [Inhabited H] {nodeKey : H} {activeNode : Entry H V}
    (he : graph.entries.lookup nodeKey = some activeNode) (forceConstrain : Option (H × ℕ)) :
    ∃ subchain,
      graph.ghostFindMergePoint ops nodeKey activeNode forceConstrain condition = .ok subchain := by
  obtain ⟨nodes, hnodes, hmem⟩ := mapM_getNode "descendents always present in node storage; qed"
    activeNode.descendents (hs.descendents_mem he)
  have hgoodNodes : ∀ n ∈ nodes, Good n.cumulativeVote := by
    intro n hn
    obtain ⟨h, -, hh⟩ := hmem n hn
    exact hgood h n hh
  -- the constraint filters the descendents, which keeps them good
  cases forceConstrain with
  | none =>
    obtain ⟨subchain, hloop⟩ := mergeLoop_ok hsafe activeNode.number graph.fuel 0
      activeNode.number nodes [nodeKey] hgoodNodes
    exact ⟨subchain, by simp [ghostFindMergePoint, hnodes, hloop]⟩
  | some constrain =>
    obtain ⟨h, num⟩ := constrain
    obtain ⟨subchain, hloop⟩ := mergeLoop_ok hsafe activeNode.number graph.fuel 0
      activeNode.number (nodes.filter fun n => (n.inDirectAncestry h num).getD false) [nodeKey]
      fun n hn => hgoodNodes n (List.mem_filter.mp hn).1
    exact ⟨subchain, by simp [ghostFindMergePoint, hnodes, hloop]⟩

omit hs in
/-- The child step of `find_ghost` returns, and a child it moves to is the entry of its key. -/
theorem nextDescendent_ok (constrain : Option (H × ℕ)) :
    ∀ keys : List H, (∀ h ∈ keys, h ∈ graph.entries) →
      ∃ r, graph.nextDescendent condition constrain keys = .ok r ∧
        ∀ key node, r = some (key, node) → graph.entries.lookup key = some node
  | [], _ => ⟨none, rfl, by simp⟩
  | d :: rest, hkeys => by
    obtain ⟨node, hnode⟩ := exists_lookup (hkeys d List.mem_cons_self)
    obtain ⟨r, hr, hrkey⟩ :=
      nextDescendent_ok constrain rest fun k hk => hkeys k (List.mem_cons_of_mem _ hk)
    obtain ⟨b, hb⟩ := hsafe.condition_ok node.cumulativeVote (hgood d node hnode)
    have hfound : ∀ key node', some (d, node) = some (key, node') →
        graph.entries.lookup key = some node' := by
      rintro key node' ⟨⟩
      exact hnode
    -- the condition runs only on a constrained child
    cases constrain with
    | none =>
      cases b with
      | true => exact ⟨some (d, node), by simp [nextDescendent, hnode, hb], hfound⟩
      | false => exact ⟨r, by simp [nextDescendent, hnode, hb, hr], hrkey⟩
    | some constrain =>
      obtain ⟨h, n⟩ := constrain
      cases hc : (node.inDirectAncestry h n).getD false with
      | false => exact ⟨r, by simp [nextDescendent, hnode, hc, hr], hrkey⟩
      | true =>
        cases b with
        | true => exact ⟨some (d, node), by simp [nextDescendent, hnode, hc, hb], hfound⟩
        | false => exact ⟨r, by simp [nextDescendent, hnode, hc, hb, hr], hrkey⟩

/-- The breadth-first loop of `find_ghost` returns a node of the graph with its entry. -/
theorem ghostLoop_ok (currentBest : Option (H × ℕ)) :
    ∀ (fuel : ℕ) (nodeKey : H) (activeNode : Entry H V) (forceConstrain : Bool),
      graph.entries.lookup nodeKey = some activeNode →
        ∃ key node constrain',
          graph.ghostLoop condition currentBest fuel nodeKey activeNode forceConstrain =
            .ok (key, node, constrain') ∧ graph.entries.lookup key = some node
  | 0, nodeKey, activeNode, forceConstrain, he => ⟨_, _, _, rfl, he⟩
  | fuel + 1, nodeKey, activeNode, forceConstrain, he => by
    obtain ⟨r, hr, hrkey⟩ := nextDescendent_ok hgood hsafe
      (if forceConstrain then currentBest else none) activeNode.descendents
      (hs.descendents_mem he)
    cases r with
    | none => exact ⟨nodeKey, activeNode, forceConstrain, by simp [ghostLoop, hr], he⟩
    | some next =>
      obtain ⟨key, node⟩ := next
      obtain ⟨key', node', constrain', hloop, he'⟩ :=
        ghostLoop_ok currentBest fuel key node false (hrkey key node rfl)
      exact ⟨key', node', constrain', by simp [ghostLoop, hr, hloop], he'⟩

/-- From a node, the steps of `find_ghost` after its start return: the condition on the node,
the loop up, and the merge point. -/
theorem findGhost_steps [Inhabited H] (currentBest : Option (H × ℕ)) {nodeKey : H}
    {activeNode : Entry H V} (he : graph.entries.lookup nodeKey = some activeNode)
    (forceConstrain : Bool) :
    ∃ b, condition activeNode.cumulativeVote = .ok b ∧ ∃ key node constrain' subchain,
      graph.ghostLoop condition currentBest graph.fuel nodeKey activeNode forceConstrain =
        .ok (key, node, constrain') ∧
      graph.ghostFindMergePoint ops key node (if constrain' then currentBest else none)
        condition = .ok subchain := by
  obtain ⟨b, hb⟩ := hsafe.condition_ok activeNode.cumulativeVote (hgood nodeKey activeNode he)
  obtain ⟨key, node, constrain', hloop, hkey⟩ :=
    ghostLoop_ok hs hgood hsafe currentBest graph.fuel nodeKey activeNode forceConstrain he
  obtain ⟨subchain, hmerge⟩ := ghostFindMergePoint_ok hs hgood hsafe hkey
    (if constrain' then currentBest else none)
  exact ⟨b, hb, key, node, constrain', subchain, hloop, hmerge⟩

/-- **`find_ghost` never panics** on a graph of the invariant's shape with good votes, for a
condition that does not panic on good votes, from any current best block. -/
theorem findGhost_ok [Inhabited H] (currentBest : Option (H × ℕ)) :
    ∃ r, graph.findGhost ops currentBest condition = .ok r := by
  apply exists_ok_of_ne_error
  intro err
  obtain ⟨ebase, hbase⟩ := exists_lookup hs.base_mem
  -- the start: the base, the best block when it is a node, or the parent node of the first
  -- node whose edge holds it
  cases currentBest with
  | none =>
    obtain ⟨b, hb, key, node, c', sub, hloop, hmerge⟩ :=
      findGhost_steps hs hgood hsafe none hbase false
    rw [ite_self] at hmerge
    cases b <;> simp [findGhost, hbase, hb, hloop, hmerge]
  | some best =>
    obtain ⟨hash, number⟩ := best
    by_cases hmem : hash ∈ graph.entries
    · have hfind : graph.findContainingNodes hash number = none := by
        simp [findContainingNodes, hmem]
      obtain ⟨e, he⟩ := exists_lookup hmem
      obtain ⟨b, hb, key, node, c', sub, hloop, hmerge⟩ :=
        findGhost_steps hs hgood hsafe (some (hash, number)) he false
      cases b <;> simp [findGhost, hfind, he, hb, hloop, hmerge]
    · obtain ⟨containing, hfind, -, hspec⟩ : ∃ containing,
          graph.findContainingNodes hash number = some containing ∧ containing.Nodup ∧
            ∀ x, x ∈ containing ↔ graph.EdgeHolds hash number x :=
        findContainingNodes_spec hs hmem
      cases containing with
      | nil =>
        obtain ⟨b, hb, key, node, c', sub, hloop, hmerge⟩ :=
          findGhost_steps hs hgood hsafe (some (hash, number)) hbase false
        cases b <;> simp [findGhost, hfind, hbase, hb, hloop, hmerge]
      | cons x rest =>
        obtain ⟨ex, p, hex, hp, hpmem⟩ := hs.parent_of_holds ((hspec x).mp List.mem_cons_self)
        obtain ⟨ep, hep⟩ := exists_lookup hpmem
        obtain ⟨b, hb, key, node, c', sub, hloop, hmerge⟩ :=
          findGhost_steps hs hgood hsafe (some (hash, number)) hep true
        cases b <;> simp [findGhost, hfind, hex, hp, hep, hb, hloop, hmerge]

/-- The walk of `find_ancestor` down the parent nodes returns, and the node it stops at is the
entry of its key. -/
theorem ancestorLoop_ok :
    ∀ (fuel : ℕ) (nodeKey : H) (activeNode canonicalNode : Entry H V),
      graph.entries.lookup nodeKey = some activeNode →
        ∃ r, graph.ancestorLoop condition fuel nodeKey activeNode canonicalNode = .ok r ∧
          ∀ key node canonical, r = some (key, node, canonical) →
            graph.entries.lookup key = some node
  | 0, nodeKey, activeNode, canonicalNode, he =>
    ⟨some (nodeKey, activeNode, canonicalNode), rfl, by rintro key node canonical ⟨⟩; exact he⟩
  | fuel + 1, nodeKey, activeNode, canonicalNode, he => by
    obtain ⟨b, hb⟩ := hsafe.condition_ok activeNode.cumulativeVote (hgood nodeKey activeNode he)
    cases b with
    | true =>
      refine ⟨some (nodeKey, activeNode, canonicalNode), by simp [ancestorLoop, hb], ?_⟩
      rintro key node canonical ⟨⟩
      exact he
    | false =>
      -- the condition fails: down to the parent node, if any
      cases hp : activeNode.ancestorNode with
      | none => exact ⟨none, by simp [ancestorLoop, hb, hp], by simp⟩
      | some parent =>
        obtain ⟨ep, hep⟩ := exists_lookup (hs.ancestorNode_mem he hp)
        obtain ⟨r, hr, hrkey⟩ := ancestorLoop_ok fuel parent ep activeNode hep
        exact ⟨r, by simp [ancestorLoop, hb, hp, hep, hr], hrkey⟩

/-- From a node, the steps of `find_ancestor` after its start return: the walk down, and the
merge point of the node it stops at. -/
theorem findAncestor_steps [Inhabited H] {nodeKey : H} {activeNode : Entry H V}
    (he : graph.entries.lookup nodeKey = some activeNode) (canonicalNode : Entry H V) :
    ∃ r, graph.ancestorLoop condition graph.fuel nodeKey activeNode canonicalNode = .ok r ∧
      ∀ key node canonical, r = some (key, node, canonical) →
        ∃ subchain, graph.ghostFindMergePoint ops key node none condition = .ok subchain := by
  obtain ⟨r, hr, hrkey⟩ :=
    ancestorLoop_ok hs hgood hsafe graph.fuel nodeKey activeNode canonicalNode he
  exact ⟨r, hr, fun key node canonical hsome =>
    ghostFindMergePoint_ok hs hgood hsafe (hrkey key node canonical hsome) none⟩

/-- **`find_ancestor` never panics** on a graph of the invariant's shape with good votes, for
a condition that does not panic on good votes, from any block. -/
theorem findAncestor_ok [Inhabited H] (hash : H) (number : ℕ) :
    ∃ r, graph.findAncestor ops hash number condition = .ok r := by
  apply exists_ok_of_ne_error
  intro err
  by_cases hmem : hash ∈ graph.entries
  · -- a node: it passes, or the walk starts at its parent node
    have hfind : graph.findContainingNodes hash number = none := by
      simp [findContainingNodes, hmem]
    obtain ⟨e, he⟩ := exists_lookup hmem
    obtain ⟨b, hb⟩ := hsafe.condition_ok e.cumulativeVote (hgood hash e he)
    cases b with
    | true => simp [findAncestor, hfind, he, hb]
    | false =>
      cases hp : e.ancestorNode with
      | none => simp [findAncestor, hfind, he, hb, hp]
      | some parent =>
        obtain ⟨ep, hep⟩ := exists_lookup (hs.ancestorNode_mem he hp)
        obtain ⟨r, hr, hmerge⟩ := findAncestor_steps hs hgood hsafe hep e
        cases r with
        | none => simp [findAncestor, hfind, he, hb, hp, hep, hr]
        | some stop =>
          obtain ⟨key, node, canonical⟩ := stop
          obtain ⟨sub, hsub⟩ := hmerge key node canonical rfl
          simp [findAncestor, hfind, he, hb, hp, hep, hr, hsub]
  · -- inside edges: the walk starts at the parent node of the first node holding it
    obtain ⟨containing, hfind, -, hspec⟩ : ∃ containing,
        graph.findContainingNodes hash number = some containing ∧ containing.Nodup ∧
          ∀ x, x ∈ containing ↔ graph.EdgeHolds hash number x :=
      findContainingNodes_spec hs hmem
    cases containing with
    | nil => simp [findAncestor, hfind]
    | cons x rest =>
      obtain ⟨ex, p, hex, hp, hpmem⟩ := hs.parent_of_holds ((hspec x).mp List.mem_cons_self)
      obtain ⟨ep, hep⟩ := exists_lookup hpmem
      obtain ⟨r, hr, hmerge⟩ := findAncestor_steps hs hgood hsafe hep ex
      cases r with
      | none => simp [findAncestor, hfind, hex, hp, hep, hr]
      | some stop =>
        obtain ⟨key, node, canonical⟩ := stop
        obtain ⟨sub, hsub⟩ := hmerge key node canonical rfl
        simp [findAncestor, hfind, hex, hp, hep, hr, hsub]

end Search

/-! ## The fuel of the loops

The loops of the searches run with `graph.fuel`, one more than the highest number of a node.
Each turn of `find_ghost`'s loop climbs to a child node, of a higher number; each turn of
`find_ancestor`'s loop goes down to the parent node, of a lower number; each turn of the merge
point's loop looks one block higher, and no edge reaches above the highest node.  So none of
them runs out of fuel: with more, each returns the same. -/

/-- A child the step of `find_ghost` moves to is one of the keys, with its entry. -/
theorem nextDescendent_some {constrain : Option (H × ℕ)} :
    ∀ {keys : List H} {key : H} {node : Entry H V},
      graph.nextDescendent condition constrain keys = .ok (some (key, node)) →
        key ∈ keys ∧ graph.entries.lookup key = some node
  | [], _, _, h => by simp [nextDescendent] at h
  | d :: rest, key, node, h => by
    -- the step takes `d`, or goes on to the rest
    have hrest : graph.nextDescendent condition constrain rest = .ok (some (key, node)) →
        key ∈ d :: rest ∧ graph.entries.lookup key = some node := by
      intro hr
      obtain ⟨hk, hl⟩ := nextDescendent_some hr
      exact ⟨List.mem_cons_of_mem _ hk, hl⟩
    cases hd : graph.entries.lookup d with
    | none => simp [nextDescendent, getNode, hd] at h
    | some nd =>
      simp only [nextDescendent, getNode, hd, ok_bind] at h
      -- `d` is taken when it is constrained and passes the condition
      cases hb : condition nd.cumulativeVote with
      | error e =>
        cases constrain with
        | none => simp [hb] at h
        | some c =>
          obtain ⟨ch, cn⟩ := c
          by_cases hc : (nd.inDirectAncestry ch cn).getD false = true
          · simp [hb, hc] at h
          · simp only [hc] at h
            exact hrest h
      | ok b =>
        cases b with
        | false =>
          simp only [hb, ok_bind, Bool.false_eq_true, if_false, ite_self] at h
          exact hrest h
        | true =>
          cases constrain with
          | none =>
            simp only [hb, ok_bind, if_true, pure_eq_ok, Except.ok.injEq, Option.some.injEq,
              Prod.mk.injEq] at h
            obtain ⟨rfl, rfl⟩ := h
            exact ⟨List.mem_cons_self, hd⟩
          | some c =>
            obtain ⟨ch, cn⟩ := c
            by_cases hc : (nd.inDirectAncestry ch cn).getD false = true
            · simp only [hc, hb, ok_bind, if_true, pure_eq_ok, Except.ok.injEq,
                Option.some.injEq, Prod.mk.injEq] at h
              obtain ⟨rfl, rfl⟩ := h
              exact ⟨List.mem_cons_self, hd⟩
            · simp only [hc] at h
              exact hrest h

/-- From a node, with more fuel than the numbers above it, `find_ghost`'s loop returns with
more fuel what it returns. -/
theorem ghostLoop_fuel (hs : Shape T graph) (currentBest : Option (H × ℕ)) :
    ∀ (fuel : ℕ) (nodeKey : H) (activeNode : Entry H V) (forceConstrain : Bool),
      graph.entries.lookup nodeKey = some activeNode → graph.maxNumber < T.number nodeKey + fuel →
        ∀ k, graph.ghostLoop condition currentBest (fuel + k) nodeKey activeNode forceConstrain =
          graph.ghostLoop condition currentBest fuel nodeKey activeNode forceConstrain
  | 0, _, _, _, he, hfuel => absurd (hs.number_le_max he) (by omega)
  | fuel + 1, nodeKey, activeNode, forceConstrain, he, hfuel => by
    intro k
    rw [show fuel + 1 + k = fuel + k + 1 by omega]
    cases hr : graph.nextDescendent condition (if forceConstrain then currentBest else none)
        activeNode.descendents with
    | error e => simp [ghostLoop, hr]
    | ok r =>
      cases r with
      | none => simp [ghostLoop, hr]
      | some next =>
        -- both loops climb to the same child, from which the fuel left is still enough
        obtain ⟨key, node⟩ := next
        obtain ⟨hkey, hnode⟩ := nextDescendent_some hr
        have hlt := hs.number_lt_of_mem_descendents he hkey
        simp only [ghostLoop, hr, ok_bind]
        exact ghostLoop_fuel hs currentBest fuel key node false hnode (by omega) k

/-- From a node, with more fuel than its number, `find_ancestor`'s loop returns with more fuel
what it returns. -/
theorem ancestorLoop_fuel (hs : Shape T graph) :
    ∀ (fuel : ℕ) (nodeKey : H) (activeNode canonicalNode : Entry H V),
      graph.entries.lookup nodeKey = some activeNode → T.number nodeKey < fuel →
        ∀ k, graph.ancestorLoop condition (fuel + k) nodeKey activeNode canonicalNode =
          graph.ancestorLoop condition fuel nodeKey activeNode canonicalNode
  | 0, _, _, _, _, hfuel => absurd hfuel (Nat.not_lt_zero _)
  | fuel + 1, nodeKey, activeNode, canonicalNode, he, hfuel => by
    intro k
    rw [show fuel + 1 + k = fuel + k + 1 by omega]
    cases hb : condition activeNode.cumulativeVote with
    | error e => simp [ancestorLoop, hb]
    | ok b =>
      cases b with
      | true => simp [ancestorLoop, hb]
      | false =>
        cases hp : activeNode.ancestorNode with
        | none => simp [ancestorLoop, hb, hp]
        | some parent =>
          -- both loops go down to the parent node, numbered below the node
          obtain ⟨ep, hep⟩ := exists_lookup (hs.ancestorNode_mem he hp)
          have hlt := hs.number_lt_of_ancestorNode he hp
          simp only [ancestorLoop, hb, hp, hep, getNode, ok_bind, Bool.false_eq_true, if_false]
          exact ancestorLoop_fuel hs fuel parent ep activeNode hep (by omega) k

omit [DecidableEq H] in
/-- No edge reaches the node's own number or above. -/
theorem Entry.ancestorBlock_of_le {e : Entry H V} {number : ℕ} (h : e.number ≤ number) :
    e.ancestorBlock number = none :=
  if_pos h

/-- At a height no edge reaches, the scan finds nothing. -/
theorem mergeScan_none (height : ℕ) :
    ∀ (nodes : List (Entry H V)) (blocks : List (H × V)), (∀ n ∈ nodes, n.number ≤ height) →
      mergeScan ops condition height nodes blocks = .ok (blocks, none)
  | [], _, _ => rfl
  | node :: rest, blocks, hnodes => by
    rw [mergeScan, Entry.ancestorBlock_of_le (hnodes node List.mem_cons_self)]
    exact mergeScan_none height rest blocks fun n hn => hnodes n (List.mem_cons_of_mem _ hn)

/-- For nodes numbered at most `bound`, with fuel to climb to `bound`, the merge point's loop
returns with more fuel what it returns. -/
theorem mergeLoop_fuel [Inhabited H] (baseNumber bound : ℕ) :
    ∀ (fuel offset bestNumber : ℕ) (nodes : List (Entry H V)) (hashes : List H),
      (∀ n ∈ nodes, n.number ≤ bound) → bound ≤ baseNumber + offset + fuel + 1 →
        ∀ k, mergeLoop ops condition baseNumber (fuel + k) offset bestNumber nodes hashes =
          mergeLoop ops condition baseNumber fuel offset bestNumber nodes hashes
  | 0, offset, bestNumber, nodes, hashes, hnodes, hfuel => by
    intro k
    cases k with
    | zero => rfl
    | succ k =>
      -- the next height is out of every edge's reach, so the loop stops as the empty fuel does
      have hscan : mergeScan ops condition (baseNumber + (offset + 1)) nodes [] = .ok ([], none) :=
        mergeScan_none _ nodes [] fun n hn => by
          have := hnodes n hn
          omega
      simp [mergeLoop, hscan]
  | fuel + 1, offset, bestNumber, nodes, hashes, hnodes, hfuel => by
    intro k
    rw [show fuel + 1 + k = fuel + k + 1 by omega]
    cases hscan : mergeScan ops condition (baseNumber + (offset + 1)) nodes [] with
    | error e => simp [mergeLoop, hscan]
    | ok r =>
      obtain ⟨blocks, newBest⟩ := r
      cases newBest with
      | none => simp [mergeLoop, hscan]
      | some newBest =>
        simp only [mergeLoop, hscan, ok_bind]
        exact mergeLoop_fuel baseNumber bound fuel (offset + 1) (bestNumber + 1) _ _
          (fun n hn => hnodes n (List.mem_filter.mp hn).1) (by omega) k

/-- **The searches' fuel is enough.**  From a node of a graph of the invariant's shape, each
loop of `find_ghost` and `find_ancestor`, run with `graph.fuel` as the searches run it, returns
what it returns with any more fuel; the merge point's loop too, over nodes of the graph. -/
theorem fuel_enough [Inhabited H] (hs : Shape T graph) {nodeKey : H} {activeNode : Entry H V}
    (he : graph.entries.lookup nodeKey = some activeNode) (k : ℕ) :
    (∀ currentBest forceConstrain,
      graph.ghostLoop condition currentBest (graph.fuel + k) nodeKey activeNode forceConstrain =
        graph.ghostLoop condition currentBest graph.fuel nodeKey activeNode forceConstrain) ∧
    (∀ canonicalNode,
      graph.ancestorLoop condition (graph.fuel + k) nodeKey activeNode canonicalNode =
        graph.ancestorLoop condition graph.fuel nodeKey activeNode canonicalNode) ∧
    (∀ (nodes : List (Entry H V)) hashes, (∀ n ∈ nodes, ∃ h, graph.entries.lookup h = some n) →
      mergeLoop ops condition activeNode.number (graph.fuel + k) 0 activeNode.number nodes hashes =
        mergeLoop ops condition activeNode.number graph.fuel 0 activeNode.number nodes hashes) := by
  have hnode := hs.number_le_max he
  refine ⟨fun currentBest forceConstrain => ?_, fun canonicalNode => ?_, fun nodes hashes hnodes => ?_⟩
  · exact ghostLoop_fuel hs currentBest graph.fuel nodeKey activeNode forceConstrain he
      (by unfold fuel; omega) k
  · exact ancestorLoop_fuel hs graph.fuel nodeKey activeNode canonicalNode he
      (by unfold fuel; omega) k
  · refine mergeLoop_fuel activeNode.number graph.maxNumber graph.fuel 0 activeNode.number nodes
      hashes (fun n hn => ?_) (by unfold fuel; omega) k
    obtain ⟨h, hh⟩ := hnodes n hn
    exact number_le_maxNumber hh

/-! ## A block on a shared edge -/

/-- Blocks numbered as they are named, but for a branch off block 2: `103`, `104`, … at
numbers `3`, `4`, …. -/
def forkTree : BlockTree ℕ where
  number h := if h < 103 then h else h - 100
  ancestorAt h n := if h < 103 then min n h else if n ≤ 2 then n else min (n + 100) h
  number_ancestorAt h n hn := by
    split_ifs at hn ⊢ <;> omega
  ancestorAt_self h := by
    split_ifs <;> omega
  ancestorAt_ancestorAt h m n hnm hm := by
    split_ifs at hm ⊢ <;> omega

/-- Votes that are numbers, added. -/
def sumOps : VoteOps ℕ := ⟨0, fun a b => .ok (a + b)⟩

/-- **`find_ancestor` can return a block above the one it is given.**  Votes of weight one on
blocks 4 and 104 make two vote-nodes whose edges share blocks 2 and 1.  Asked for the highest
block at or below block 1 whose weight is at least 2, `find_ancestor` starts from the parent
node, the base, climbs the shared edge while both votes pass, and returns block 2. -/
theorem findAncestor_above_shared_edge : ∃ graph1 graph2,
    (VoteGraph.new sumOps 0 0).insert sumOps 4 4 1 (Chain.ofTree forkTree) = .ok (.ok graph1) ∧
      graph1.insert sumOps 104 4 1 (Chain.ofTree forkTree) = .ok (.ok graph2) ∧
      graph2.findAncestor sumOps 1 1 (fun v => pure (decide (2 ≤ v))) = .ok (some (2, 2)) ∧
      ¬ forkTree.Descends 2 1 :=
  ⟨_, _, rfl, rfl, rfl, by decide⟩

end VoteGraph

end Grandpa
end Yeeroot

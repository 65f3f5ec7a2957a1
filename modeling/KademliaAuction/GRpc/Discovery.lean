/-
KademliaAuction.GRpc.Discovery — looking for nodes (`iterative_find_node` of
`src/g_rpc/client.rs`).

The client asks the closest nodes it knows for nodes close to the target,
and those they name in turn, always the closest one that it has not asked
yet. `Discovery` has the variables of the function; what `find_node` returns
for a node of the shortlist is the parameter `findNode`. A node found for the
first time should go into the routing table: each push on `found_nodes` comes
with one call of `insert_node_to_routing_table`, so that list is also the
record of these calls.

The loop is a best-first search of `Lib.Search` (`Discovery.step_round`).
From that come `queried_reachable`, which says which nodes are asked, and,
in `GRpc.DiscoveryTheorems`, which of them are inserted.
-/
import KademliaAuction.Lib.Loop
import KademliaAuction.Lib.Search
import KademliaAuction.Node
import KademliaAuction.Routing.ClosestNodes

namespace KademliaAuction

open Blockchain Routing Lib

/-- The variables of `iterative_find_node`: the node, whose routing table
changes, the ids in `queried`, the latest first, `shortlist` and
`found_nodes`. `pushed` collects what the loop puts on the shortlist. -/
structure Discovery where
  node : Node
  queried : List Address
  shortlist : List NodeInfo
  foundNodes : List NodeInfo
  pushed : List NodeInfo

namespace Discovery

variable (findNode : NodeInfo → Except String (List NodeInfo)) (targetId : Address)

/-- The body of the loop over `new_nodes`, when `node` has answered. -/
def considerNode (node : NodeInfo) (s : Discovery) (newNode : NodeInfo) : Discovery :=
  if newNode.id ∈ s.queried then s
  else if newNode.id = s.node.nodeInfo.id then s
  else
    let s := { s with shortlist := s.shortlist ++ [newNode], pushed := s.pushed ++ [newNode] }
    if s.foundNodes.any fun n => n.id = node.id then s
    else
      { s with
        foundNodes := s.foundNodes ++ [newNode]
        node := s.node.insertNodeToRoutingTable newNode }

/-- A node is asked. One that fails to answer is skipped. -/
def askNode (s : Discovery) (node : NodeInfo) : Discovery :=
  let s := { s with queried := node.id :: s.queried }
  match findNode node with
  | .error _ => s
  | .ok newNodes =>
      let s := newNodes.foldl (considerNode node) s
      { s with shortlist := s.shortlist.mergeSort (RoutingTable.closerOrEqual targetId) }

/-- One round of the main loop. -/
def round (s : Discovery) : Discovery ⊕ Discovery :=
  match s.shortlist with
  | [] => .inr s
  | node :: rest =>
      if node.id ∈ s.queried then .inl { s with shortlist := rest }
      else .inl ({ s with shortlist := rest }.askNode findNode targetId node)

/-- The shortlist is seeded from the routing table. -/
def seeded (node : Node) (targetId : Address) : Discovery where
  node := node
  queried := []
  shortlist := node.routingTable.getKClosestNodes targetId []
  foundNodes := []
  pushed := []

/-- `iterative_find_node`, for at most `fuel` rounds. -/
def iterativeFindNode (node : Node) (fuel : Nat) : Option Discovery :=
  Loop.loop (round findNode targetId) fuel (seeded node targetId)

end Discovery

/-! ## One response -/

namespace Discovery

/-- The contacts of a response that the loop over them does not pass over. -/
def newIn (s : Discovery) (newNodes : List NodeInfo) : List NodeInfo :=
  newNodes.filter fun n => n.id ∉ s.queried ∧ n.id ≠ s.node.nodeInfo.id

/-- All that the loop over a response does: it puts the new contacts on the
shortlist, and inserts them unless the node that answered is itself among the
found nodes. -/
theorem foldl_considerNode {s : Discovery} {node : NodeInfo} (hqueried : node.id ∈ s.queried)
    (newNodes : List NodeInfo) :
    newNodes.foldl (considerNode node) s =
      if s.foundNodes.any fun n => n.id = node.id then
        { s with
          shortlist := s.shortlist ++ s.newIn newNodes
          pushed := s.pushed ++ s.newIn newNodes }
      else
        { s with
          shortlist := s.shortlist ++ s.newIn newNodes
          pushed := s.pushed ++ s.newIn newNodes
          foundNodes := s.foundNodes ++ s.newIn newNodes
          node := (s.newIn newNodes).foldl Node.insertNodeToRoutingTable s.node } := by
  induction newNodes generalizing s with
  | nil => split <;> simp [newIn]
  | cons newNode newNodes ih =>
    rw [List.foldl_cons]
    by_cases hpass : newNode.id ∈ s.queried ∨ newNode.id = s.node.nodeInfo.id
    · have hsame : considerNode node s newNode = s := by
        unfold considerNode
        rcases hpass with hq | hown
        · rw [if_pos hq]
        · rw [if_pos hown, ite_self]
      have hnew : s.newIn (newNode :: newNodes) = s.newIn newNodes := by
        unfold newIn
        rw [List.filter_cons_of_neg]
        rcases hpass with hq | hown
        · simp [hq]
        · simp [hown]
      rw [hsame, ih hqueried, hnew]
    · push Not at hpass
      have hnew : s.newIn (newNode :: newNodes) = newNode :: s.newIn newNodes := by
        unfold newIn
        rw [List.filter_cons_of_pos (by simp [hpass])]
      -- The node that answered is queried, so it is not the one put on the list.
      have hother : newNode.id ≠ node.id := fun heq => hpass.1 (heq ▸ hqueried)
      have hpushed : considerNode node s newNode =
          if s.foundNodes.any fun n => n.id = node.id then
            { s with shortlist := s.shortlist ++ [newNode], pushed := s.pushed ++ [newNode] }
          else
            { s with
              shortlist := s.shortlist ++ [newNode]
              pushed := s.pushed ++ [newNode]
              foundNodes := s.foundNodes ++ [newNode]
              node := s.node.insertNodeToRoutingTable newNode } := by
        unfold considerNode
        rw [if_neg hpass.1, if_neg hpass.2]
      rw [hnew, hpushed]
      by_cases hfound : (s.foundNodes.any fun n => n.id = node.id) = true
      · rw [if_pos hfound, if_pos hfound, ih (by exact hqueried), if_pos hfound]
        simp only [newIn, List.append_assoc, List.singleton_append]
      · have hstill : ¬ ((s.foundNodes ++ [newNode]).any fun n => n.id = node.id) = true := by
          simpa [hother] using hfound
        rw [if_neg hfound, if_neg hfound, ih (by exact hqueried), if_neg hstill]
        simp only [newIn, Node.insertNodeToRoutingTable, List.append_assoc, List.singleton_append,
          List.foldl_cons]
        rfl

/-! ## One round -/

variable {findNode : NodeInfo → Except String (List NodeInfo)} {targetId : Address}

/-- The new contacts that asking a node brings; none if it fails. -/
def broughtBy (findNode : NodeInfo → Except String (List NodeInfo)) (s : Discovery)
    (node : NodeInfo) : List NodeInfo :=
  match findNode node with
  | .error _ => []
  | .ok newNodes => { s with queried := node.id :: s.queried }.newIn newNodes

theorem foldl_insertNode_nodeInfo (node : Node) (contacts : List NodeInfo) :
    (contacts.foldl Node.insertNodeToRoutingTable node).nodeInfo = node.nodeInfo := by
  induction contacts generalizing node with
  | nil => rfl
  | cons contact contacts ih => exact ih _

/-- All that asking a node does, field by field. -/
theorem askNode_spec (findNode : NodeInfo → Except String (List NodeInfo)) (targetId : Address)
    (s : Discovery) (node : NodeInfo) :
    (s.askNode findNode targetId node).queried = node.id :: s.queried ∧
      (s.askNode findNode targetId node).node.nodeInfo = s.node.nodeInfo ∧
      (s.askNode findNode targetId node).shortlist.Perm
        (s.shortlist ++ s.broughtBy findNode node) ∧
      (s.askNode findNode targetId node).pushed = s.pushed ++ s.broughtBy findNode node ∧
      (s.askNode findNode targetId node).foundNodes =
        if s.foundNodes.any fun n => n.id = node.id then s.foundNodes
        else s.foundNodes ++ s.broughtBy findNode node := by
  unfold askNode broughtBy
  cases findNode node with
  | error e => simp
  | ok newNodes =>
    simp only
    rw [foldl_considerNode List.mem_cons_self]
    split
    · exact ⟨rfl, rfl, List.mergeSort_perm _ _, rfl, rfl⟩
    · exact ⟨rfl, foldl_insertNode_nodeInfo _ _, List.mergeSort_perm _ _, rfl, rfl⟩

/-! ## The search -/

/-- The shortlist is in order of distance. -/
def InOrder (targetId : Address) (shortlist : List NodeInfo) : Prop :=
  shortlist.Pairwise fun a b => offset a.id targetId ≤ offset b.id targetId

theorem inOrder_iff {shortlist : List NodeInfo} :
    InOrder targetId shortlist ↔
      (shortlist.map NodeInfo.id).Pairwise fun a b => offset a targetId ≤ offset b targetId := by
  unfold InOrder
  rw [List.pairwise_map]

theorem inOrder_mergeSort (targetId : Address) (shortlist : List NodeInfo) :
    InOrder targetId (shortlist.mergeSort (RoutingTable.closerOrEqual targetId)) := by
  rw [RoutingTable.closerOrEqual_eq]
  exact Nearest.pairwise_le_mergeSort shortlist

theorem inOrder_getKClosestNodes (rt : RoutingTable) (targetId : Address) :
    InOrder targetId (rt.getKClosestNodes targetId []) :=
  (inOrder_mergeSort targetId _).sublist (List.take_sublist _ _)

/-- Asking a node leaves the shortlist in order. -/
theorem inOrder_askNode {s : Discovery} (h : InOrder targetId s.shortlist) (node : NodeInfo) :
    InOrder targetId (s.askNode findNode targetId node).shortlist := by
  unfold askNode
  cases findNode node with
  | error e => exact h
  | ok newNodes => exact inOrder_mergeSort targetId _

/-- All that a round does: it leaves, drops a node that has been asked, or
asks one. -/
theorem round_cases (findNode : NodeInfo → Except String (List NodeInfo)) (targetId : Address)
    (s : Discovery) :
    (s.shortlist = [] ∧ s.round findNode targetId = .inr s) ∨
    ∃ node rest, s.shortlist = node :: rest ∧
      ((node.id ∈ s.queried ∧ s.round findNode targetId = .inl { s with shortlist := rest }) ∨
        (node.id ∉ s.queried ∧ s.round findNode targetId =
          .inl ({ s with shortlist := rest }.askNode findNode targetId node))) := by
  unfold round
  cases hlist : s.shortlist with
  | nil => exact Or.inl ⟨rfl, rfl⟩
  | cons node rest =>
    refine Or.inr ⟨node, rest, rfl, ?_⟩
    by_cases hq : node.id ∈ s.queried
    · exact Or.inl ⟨hq, if_pos hq⟩
    · exact Or.inr ⟨hq, if_neg hq⟩

/-- The search that the variables are in the middle of. -/
def search (s : Discovery) : Search.State Address where
  visited := s.queried
  pending := s.shortlist.map NodeInfo.id

end Discovery

/-- What the nodes of the network answer. No id is asked twice, so what a
lookup meets is always a function of the id. -/
abbrev Network := Address → Except String (List NodeInfo)

/-- The ids of the contacts in the answer of a node, other than the client's
own. -/
def Network.contactIds (network : Network) (own id : Address) : List Address :=
  match network id with
  | .error _ => []
  | .ok newNodes => (newNodes.map NodeInfo.id).filter (· ≠ own)

namespace Discovery

variable {network : Network}

/-- What a node brings is what its answer has that is not queried. -/
theorem map_id_broughtBy (network : Network) (s : Discovery) (node : NodeInfo) :
    (s.broughtBy (fun n => network n.id) node).map NodeInfo.id =
      (network.contactIds s.node.nodeInfo.id node.id).filter (· ∉ node.id :: s.queried) := by
  unfold broughtBy Network.contactIds
  dsimp only
  cases network node.id with
  | error e => rfl
  | ok newNodes =>
    simp only [newIn, List.filter_filter, List.filter_map]
    congr 1
    refine List.filter_congr fun n _ => ?_
    simp

/-- A round is a step of a search, and leaves the shortlist in order. -/
theorem step_round {s s' : Discovery} (h : s.round (fun n => network n.id) targetId = .inl s') :
    Search.Step (network.contactIds s.node.nodeInfo.id) s.search s'.search ∧
      s'.node.nodeInfo = s.node.nodeInfo ∧
      (InOrder targetId s.shortlist → InOrder targetId s'.shortlist) := by
  rcases s.round_cases (fun n => network n.id) targetId with
    ⟨_, hround⟩ | ⟨node, rest, hlist, ⟨hq, hround⟩ | ⟨hq, hround⟩⟩
  · cases hround.symm.trans h
  · obtain rfl := Sum.inl.inj (hround.symm.trans h)
    rw [hlist]
    refine ⟨?_, rfl, fun horder => (List.pairwise_cons.mp horder).2⟩
    simp only [search, hlist, List.map_cons]
    exact .skip hq
  · obtain rfl := Sum.inl.inj (hround.symm.trans h)
    obtain ⟨hqueried, hinfo, hperm, _, _⟩ :=
      askNode_spec (fun n => network n.id) targetId { s with shortlist := rest } node
    rw [hlist]
    refine ⟨?_, hinfo, fun horder =>
      inOrder_askNode (s := { s with shortlist := rest }) (List.pairwise_cons.mp horder).2 node⟩
    have hids := hperm.map NodeInfo.id
    rw [List.map_append, map_id_broughtBy] at hids
    simp only [search, hlist, List.map_cons, hqueried]
    refine .visit hq List.filter_sublist.subset (fun b hb => ?_) hids
    by_cases hvisited : b ∈ node.id :: s.queried
    · exact Or.inl hvisited
    · exact Or.inr (List.mem_filter.mpr ⟨hb, by simpa using hvisited⟩)

/-! ## Who is asked -/

variable {node : Node}

/-- The ids that a lookup starts from. -/
def seedIds (node : Node) (targetId : Address) : List Address :=
  (node.routingTable.getKClosestNodes targetId []).map NodeInfo.id

/-- The seeds leave out the own id of the table. -/
theorem notMem_seedIds (h : node.routingTable.id = node.nodeInfo.id) (targetId : Address) :
    node.nodeInfo.id ∉ seedIds node targetId := by
  intro hmem
  obtain ⟨contact, hcontact, hid⟩ := List.mem_map.mp hmem
  have hcollected := (List.mergeSort_perm _ _).mem_iff.mp (List.mem_of_mem_take hcontact)
  rw [collectNodes_eq, List.nil_append, List.mem_flatMap] at hcollected
  obtain ⟨_, _, hother⟩ := hcollected
  have hne := (List.mem_filter.mp hother).2
  rw [hid, ← h] at hne
  simp at hne

/-- What the rounds of a lookup maintain. -/
structure Searching (network : Network) (targetId : Address) (node : Node) (s : Discovery) :
    Prop where
  nodeInfo : s.node.nodeInfo = node.nodeInfo
  bestFirst : Search.BestFirst (fun id => offset id targetId) (network.contactIds node.nodeInfo.id)
    (seedIds node targetId) s.search

theorem offset_injective (targetId : Address) :
    Function.Injective fun id : Address => offset id targetId :=
  fun _ _ h => Address.distance_left_injective targetId (BitVec.toNat_inj.mp h)

theorem searching_seeded (network : Network) (targetId : Address) (node : Node) :
    Searching network targetId node (seeded node targetId) where
  nodeInfo := rfl
  bestFirst := Search.bestFirst_start
    (inOrder_iff.mp (inOrder_getKClosestNodes node.routingTable targetId))

theorem Searching.round {s s' : Discovery} (h : Searching network targetId node s)
    (hround : s.round (fun n => network n.id) targetId = .inl s') :
    Searching network targetId node s' := by
  obtain ⟨hstep, hinfo, horder⟩ := step_round hround
  rw [h.nodeInfo] at hstep
  refine ⟨hinfo.trans h.nodeInfo, h.bestFirst.step (offset_injective targetId) hstep ?_⟩
  exact inOrder_iff.mp (horder (inOrder_iff.mpr h.bestFirst.sorted))

end Discovery

instance : Finite Address :=
  Finite.of_injective (fun a : Address => a.asU256.toFin)
    fun _ _ h => Address.asU256_injective (BitVec.toFin_inj.mp h)

namespace Discovery

variable {network : Network} {targetId : Address} {node : Node}

/-- The loop ends, whatever the network. -/
theorem exists_iterativeFindNode (network : Network) (targetId : Address) (node : Node) :
    ∃ result, Loop.Ends (round (fun n => network n.id) targetId) (seeded node targetId) result := by
  have hfin : {id | Search.Reached (network.contactIds node.nodeInfo.id)
      (seedIds node targetId) id}.Finite := Set.toFinite _
  have hacc := Search.acc_step hfin (seeded node targetId).search
  refine Loop.exists_ends_of_acc (I := Searching network targetId node) (fun s s' hs hround => ?_)
    (searching_seeded network targetId node) (InvImage.accessible search hacc)
  obtain ⟨hstep, _, _⟩ := step_round hround
  rw [hs.nodeInfo] at hstep
  exact ⟨hs.round hround, hs.bestFirst.toTraversal, hstep⟩

/-- Where the loop leaves, the shortlist is empty, and what the rounds keep
holds. -/
theorem invariant_of_ends {I : Discovery → Prop} {result : Discovery}
    (hkeep : ∀ s s', I s → s.round (fun n => network n.id) targetId = .inl s' → I s')
    (hseeded : I (seeded node targetId))
    (h : Loop.Ends (round (fun n => network n.id) targetId) (seeded node targetId) result) :
    I result ∧ result.shortlist = [] := by
  obtain ⟨last, hlast, hround⟩ := h.invariant hkeep hseeded
  rcases last.round_cases (fun n => network n.id) targetId with
    ⟨hempty, hleave⟩ | ⟨_, _, _, ⟨_, hgo⟩ | ⟨_, hgo⟩⟩
  · obtain rfl := Sum.inr.inj (hleave.symm.trans hround)
    exact ⟨hlast, hempty⟩
  · cases hgo.symm.trans hround
  · cases hgo.symm.trans hround

end Discovery

open Discovery in
/-- **Who a lookup asks**: in every network the loop ends, and then it has
asked each node that can be reached from the seeds through answers once, no
other, and never itself. -/
theorem queried_reachable (network : Network) (node : Node) (targetId : Address)
    (hid : node.routingTable.id = node.nodeInfo.id) :
    (∃ fuel result, iterativeFindNode (fun n => network n.id) targetId node fuel = some result) ∧
    ∀ fuel result, iterativeFindNode (fun n => network n.id) targetId node fuel = some result →
      result.queried.Nodup ∧ node.nodeInfo.id ∉ result.queried ∧
        ∀ id, id ∈ result.queried ↔
          Search.Reached (network.contactIds node.nodeInfo.id) (seedIds node targetId) id := by
  constructor
  · obtain ⟨result, fuel, hrun⟩ := exists_iterativeFindNode network targetId node
    exact ⟨fuel, result, hrun⟩
  · intro fuel result hrun
    obtain ⟨hsearch, hempty⟩ := invariant_of_ends (fun s s' hs hround => hs.round hround)
      (searching_seeded network targetId node) ⟨fuel, hrun⟩
    have htraversal := hsearch.bestFirst.toTraversal
    have hiff : ∀ id, id ∈ result.queried ↔
        Search.Reached (network.contactIds node.nodeInfo.id) (seedIds node targetId) id := by
      intro id
      refine Search.Traversal.mem_visited_iff ?_
      rwa [search, hempty] at htraversal
    refine ⟨htraversal.trail.nodup, fun hown => ?_, hiff⟩
    -- The own id is neither a seed nor kept from an answer.
    cases (hiff _).mp hown with
    | seed hseed _ => exact notMem_seedIds hid targetId hseed
    | step _ hsucc _ =>
      unfold Network.contactIds at hsucc
      split at hsucc
      · cases hsucc
      · simp at hsucc

/-- Node 1, which knows node 2. -/
def hopNode : Node :=
  (Node.new (Address.ofU256 1) "127.0.0.1" 8001 Config.testConfig
    { auctions := .absent, ledger := .absent }).insertNodeToRoutingTable (sampleNode 2)

/-- Node 2 names node 3 (and itself and the client), node 3 names node 4, and
no other node answers. -/
def hopNetwork : Network := fun id =>
  if id = (sampleNode 2).id then .ok [sampleNode 2, sampleNode 1, sampleNode 3]
  else if id = (sampleNode 3).id then .ok [sampleNode 4]
  else .error "Failed to connect"

theorem queried_hopNetwork :
    hopNode.routingTable.id = hopNode.nodeInfo.id ∧
    ((∃ fuel result, Discovery.iterativeFindNode (fun n => hopNetwork n.id) (sampleNode 1).id hopNode
        fuel = some result) ∧
      ∀ fuel result, Discovery.iterativeFindNode (fun n => hopNetwork n.id) (sampleNode 1).id hopNode
          fuel = some result →
        result.queried.Nodup ∧ hopNode.nodeInfo.id ∉ result.queried ∧
          ∀ id, id ∈ result.queried ↔
            Search.Reached (hopNetwork.contactIds hopNode.nodeInfo.id)
              (Discovery.seedIds hopNode (sampleNode 1).id) id) :=
  ⟨rfl, queried_reachable hopNetwork hopNode (sampleNode 1).id rfl⟩

end KademliaAuction

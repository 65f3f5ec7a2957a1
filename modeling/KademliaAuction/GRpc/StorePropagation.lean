/-
KademliaAuction.GRpc.StorePropagation — STORE requests in a network of nodes
with fixed routing tables.

The `store` handler sends the auction on to every node close to the key other
than itself and the sender. It does not remember what it has seen, and
`store_auction` reports `true` whether or not the auction is new, so the flag
`should_forward` never stops anything (`storeDecoded_forwards`). What is in
flight is a multiset of (sender, receiver) pairs, as in `Lib.Delivery`.

`store_terminates_iff` says when propagation ends: when no pair that the
first one leads to leads back to itself. Three nodes that know each other are
enough for one that does (`triangle_forwards_forever`).
-/
import KademliaAuction.GRpc.JoinTheorems
import KademliaAuction.Lib.Delivery

namespace KademliaAuction

open Blockchain Proto Routing Lib Delivery

/-- The forwards of the handler, when the writes succeed: the targets, in
either branch. -/
theorem Server.storeDecoded_forwards (libs : Libraries) (server : Server) (inputs : Inputs)
    (h : inputs.effects.AllWritten) (sender : NodeInfo) (auction : Auction) :
    (server.storeDecoded libs inputs sender auction).forwards =
      forwardTargets server.host.node sender.id
        (server.host.node.getClosestNodesToKey auction.key) := by
  have hstored : (server.host.storeAuction libs.toCrates inputs.effects auction).1 = .ok true :=
    (server.host.storeAuction_commits libs.toCrates inputs.effects auction).2.2 h
  unfold storeDecoded
  simp only
  split
  · generalize server.host.storeAuction libs.toCrates inputs.effects auction = stored at hstored
    obtain ⟨result, host⟩ := stored
    obtain rfl : result = .ok true := hstored
    rfl
  · rfl

/-! ## The network -/

/-- Nodes with their routing tables, one for each id. -/
abbrev StoreNet := KeyedSet Node fun node => node.nodeInfo.id

/-- A STORE in flight: its sender and its receiver. -/
abbrev StoreMessage := Address × Address

/-- The ids of some node informations. -/
def receivers (targets : List NodeInformation) : List Address :=
  targets.filterMap fun info => (NodeInfo.tryFrom info).toOption.map NodeInfo.id

namespace StoreNet

/-- The STOREs that a node of the network may send for a key. -/
def sentBy (key : Address) (node : Node) : List StoreMessage :=
  (receivers (node.getClosestNodesToKey key)).map fun receiver => (node.nodeInfo.id, receiver)

/-- The STOREs that delivering one makes its receiver send. Nobody answers
for an id outside the network. -/
def forwards (net : StoreNet) (key : Address) (m : StoreMessage) : List StoreMessage :=
  match net.find m.2 with
  | none => []
  | some node =>
      (receivers (Server.forwardTargets node m.1 (node.getClosestNodesToKey key))).map
        fun receiver => (m.2, receiver)

theorem receivers_toInformation (nodes : List NodeInfo) :
    receivers (nodes.map NodeInfo.toInformation) = nodes.map NodeInfo.id := by
  unfold receivers
  rw [List.filterMap_map, ← List.filterMap_eq_map]
  refine List.filterMap_congr fun node _ => ?_
  simp only [Function.comp_apply, NodeInfo.tryFrom_toInformation]
  rfl

/-- Who is forwarded to: the nodes close to the key except the receiver
itself and the sender. -/
theorem mem_forwards {net : StoreNet} {key : Address} {m m' : StoreMessage} :
    m' ∈ net.forwards key m ↔ ∃ node, net.find m.2 = some node ∧ m'.1 = m.2 ∧
      m'.2 ≠ node.nodeInfo.id ∧ m'.2 ≠ m.1 ∧
      ∃ contact ∈ node.routingTable.getKClosestNodes key [node.nodeInfo], contact.id = m'.2 := by
  have htargets : ∀ node : Node,
      receivers (Server.forwardTargets node m.1 (node.getClosestNodesToKey key)) =
        ((node.routingTable.getKClosestNodes key [node.nodeInfo]).filter fun contact =>
          contact.id ≠ node.nodeInfo.id ∧ contact.id ≠ m.1).map NodeInfo.id := by
    intro node
    unfold Server.forwardTargets Node.getClosestNodesToKey
    rw [List.filter_map, receivers_toInformation]
    refine congrArg (List.map NodeInfo.id) (List.filter_congr fun contact _ => ?_)
    simp [NodeInfo.toInformation, Address.toStr_inj]
  unfold forwards
  cases hfind : net.find m.2 with
  | none => simp
  | some node =>
    simp only [htargets, List.mem_map, List.mem_filter, decide_eq_true_eq, Option.some.injEq,
      exists_eq_left']
    constructor
    · rintro ⟨_, ⟨contact, ⟨hmem, hself, hsender⟩, hid⟩, hm'⟩
      rw [← hm']
      exact ⟨rfl, hid ▸ hself, hid ▸ hsender, contact, hmem, hid⟩
    · rintro ⟨hfirst, hself, hsender, contact, hmem, hid⟩
      exact ⟨m'.2, ⟨contact, ⟨hmem, hid ▸ hself, hid ▸ hsender⟩, hid⟩, Prod.ext hfirst.symm rfl⟩

/-- A node with room among the closest for all its contacts sends to each of
them, except the sender. -/
theorem sends_of_contact {net : StoreNet} {node : Node} (hnode : node ∈ net)
    (hplaced : node.routingTable.WellPlaced)
    (hroom : 1 + node.routingTable.contacts.length < node.routingTable.config.kValue)
    {contact : NodeInfo} (hcontact : contact ∈ node.routingTable.contacts)
    (hself : contact.id ≠ node.nodeInfo.id) {sender : Address} (hsender : contact.id ≠ sender)
    (key : Address) :
    Sends (net.forwards key) (sender, node.nodeInfo.id) (node.nodeInfo.id, contact.id) := by
  have hfind : net.find node.nodeInfo.id = some node := KeyedSet.find_eq_some.mpr ⟨hnode, rfl⟩
  have hmem : contact ∈ node.routingTable.getKClosestNodes key [node.nodeInfo] :=
    (hplaced.mem_getKClosestNodes (by rwa [List.length_singleton])).mpr (Or.inr hcontact)
  exact mem_forwards.mpr ⟨node, hfind, rfl, hself, hsender, contact, hmem, rfl⟩

/-- All that a first message leads to is itself or sent by a node. -/
theorem descendant_cases {net : StoreNet} {key : Address} {first m : StoreMessage}
    (h : Descendant (net.forwards key) first m) : m = first ∨ m ∈ net.elems.flatMap (sentBy key) := by
  rcases Relation.ReflTransGen.cases_tail h with rfl | ⟨before, _, hsends⟩
  · exact Or.inl rfl
  · obtain ⟨node, hfind, hfirst, _, _, contact, hmem, hid⟩ := mem_forwards.mp hsends
    obtain ⟨hnode, hkey⟩ := KeyedSet.find_eq_some.mp hfind
    refine Or.inr (List.mem_flatMap.mpr ⟨node, hnode, ?_⟩)
    unfold sentBy Node.getClosestNodesToKey
    rw [receivers_toInformation, List.map_map, List.mem_map]
    exact ⟨contact, hmem, Prod.ext (hkey.trans hfirst.symm) hid⟩

theorem finite_descendants (net : StoreNet) (key : Address) (first : StoreMessage) :
    {m | Descendant (net.forwards key) first m}.Finite := by
  refine (List.finite_toSet (first :: net.elems.flatMap (sentBy key))).subset fun m hm => ?_
  rcases descendant_cases hm with rfl | hsent
  · exact List.mem_cons_self
  · exact List.mem_cons_of_mem _ hsent

end StoreNet

/-- **When STORE propagation ends**: from a first STORE there is no endless
sequence of deliveries exactly when no STORE it leads to leads back to
itself. -/
theorem store_terminates_iff (net : StoreNet) (key : Address) (first : StoreMessage) :
    (¬ ∃ inFlight : Nat → Multiset StoreMessage, inFlight 0 = {first} ∧
        ∀ n, Delivers (net.forwards key) (inFlight n) (inFlight (n + 1))) ↔
      ∀ m, Descendant (net.forwards key) first m → ¬ OnCycle (net.forwards key) m := by
  rw [exists_infinite_iff_cycle (net.finite_descendants key first)]
  push Not
  rfl

/-! Three nodes that know each other. -/

def triangleConfig : Config := { Config.testConfig with kValue := 4 }

/-- A node that has inserted the given contacts. -/
def knowing (id : Nat) (contacts : List NodeInfo) : Node :=
  { sampleHost.node with
    nodeInfo := sampleNode id
    routingTable := (RoutingTable.new (sampleNode id) triangleConfig).insertAll contacts
    config := triangleConfig }

def triangle : StoreNet where
  elems :=
    [knowing 1 [sampleNode 2, sampleNode 3], knowing 2 [sampleNode 1, sampleNode 3],
      knowing 3 [sampleNode 1, sampleNode 2]]
  nodupKeys := by decide +kernel

/-- A node forwards to a contact that is not the sender. -/
theorem triangle_forwards {id sender receiver : Nat} {contacts : List NodeInfo}
    (hnode : knowing id contacts ∈ triangle)
    (hcontacts : (knowing id contacts).routingTable.contacts.length = 2)
    (hreceiver : sampleNode receiver ∈ (knowing id contacts).routingTable.contacts)
    (hself : (sampleNode receiver).id ≠ (sampleNode id).id)
    (hsender : (sampleNode receiver).id ≠ (sampleNode sender).id) (key : Address) :
    Sends (triangle.forwards key) ((sampleNode sender).id, (sampleNode id).id)
      ((sampleNode id).id, (sampleNode receiver).id) := by
  have hconfig : (knowing id contacts).routingTable.config.kValue = 4 :=
    congrArg Config.kValue (RoutingTable.config_insertAll _ _)
  exact StoreNet.sends_of_contact hnode (RoutingTable.wellPlaced_insertAll _ _ _)
    (by rw [hcontacts, hconfig]; decide) hreceiver hself hsender key

/-- **Propagation that never ends**: a STORE sent to one of three nodes that
know each other, with room for all of them among the closest, goes round for
ever. -/
theorem triangle_forwards_forever :
    ∃ inFlight : Nat → Multiset StoreMessage,
      inFlight 0 = {((sampleNode 9).id, (sampleNode 1).id)} ∧
        ∀ n, Delivers (triangle.forwards (sampleNode 5).id) (inFlight n) (inFlight (n + 1)) := by
  have hfirst : knowing 1 [sampleNode 2, sampleNode 3] ∈ triangle := List.mem_cons_self
  have hsecond : knowing 2 [sampleNode 1, sampleNode 3] ∈ triangle :=
    List.mem_cons_of_mem _ List.mem_cons_self
  have hthird : knowing 3 [sampleNode 1, sampleNode 2] ∈ triangle :=
    List.mem_cons_of_mem _ (List.mem_cons_of_mem _ List.mem_cons_self)
  have hstart : Sends (triangle.forwards (sampleNode 5).id) ((sampleNode 9).id, (sampleNode 1).id)
      ((sampleNode 1).id, (sampleNode 2).id) :=
    triangle_forwards hfirst (by decide +kernel) (by decide +kernel) (by decide +kernel)
      (by decide +kernel) _
  have h12 : Sends (triangle.forwards (sampleNode 5).id) ((sampleNode 1).id, (sampleNode 2).id)
      ((sampleNode 2).id, (sampleNode 3).id) :=
    triangle_forwards hsecond (by decide +kernel) (by decide +kernel) (by decide +kernel)
      (by decide +kernel) _
  have h23 : Sends (triangle.forwards (sampleNode 5).id) ((sampleNode 2).id, (sampleNode 3).id)
      ((sampleNode 3).id, (sampleNode 1).id) :=
    triangle_forwards hthird (by decide +kernel) (by decide +kernel) (by decide +kernel)
      (by decide +kernel) _
  have h31 : Sends (triangle.forwards (sampleNode 5).id) ((sampleNode 3).id, (sampleNode 1).id)
      ((sampleNode 1).id, (sampleNode 2).id) :=
    triangle_forwards hfirst (by decide +kernel) (by decide +kernel) (by decide +kernel)
      (by decide +kernel) _
  have hcycle : OnCycle (triangle.forwards (sampleNode 5).id)
      ((sampleNode 1).id, (sampleNode 2).id) :=
    ((Relation.TransGen.single h12).tail h23).tail h31
  exact exists_infinite_of_cycle (Relation.ReflTransGen.single hstart) hcycle

end KademliaAuction

/-
KademliaAuction.GRpc.Responsibility — which auctions a node keeps.

The `store` handler keeps an auction when the node finds itself among the
closest nodes to the key. The intent is Kademlia's: the `k_value` nodes
nearest to a key hold its value. But the node asks `get_k_closest_nodes`,
whose scan starts with the node itself in the vector and stops early, so a
contact that is closer can go unseen and the node keeps what is not its own.

`responsible_iff` says for which tables and keys the answer is right.
-/
import KademliaAuction.GRpc.SettlementTheorems
import KademliaAuction.Routing.SeededScan

namespace KademliaAuction

open Blockchain Proto Routing Lib Nearest RoutingTable

/-- What Kademlia asks of a node for a key: the closest nodes are the nearest
of the node itself and its contacts, and an auction that a STORE brings is
kept exactly when fewer than `k_value` contacts are strictly closer. -/
structure Server.ResponsibleFor (libs : Libraries) (server : Server) (key : Address) : Prop where
  closest : server.host.node.getClosestNodesToKey key =
    (nearest (distanceTo key) server.host.node.config.kValue
      (server.host.node.nodeInfo :: server.host.node.routingTable.contacts)).map
        NodeInfo.toInformation
  keeps : ∀ request payload senderProto sender auctionProto auction,
    openRequest libs libs.prost.storeRequest request = .ok (payload, senderProto, sender) →
    payload.auction = some auctionProto → Auction.tryFrom auctionProto = .ok auction →
    auction.key = key →
      (server.keeps libs .store request = some auction ↔
        server.host.node.routingTable.closerContacts key < server.host.node.config.kValue)

/-- The table has been built by insertions, on the node and its
configuration. -/
def Node.Grown (node : Node) : Prop :=
  ∃ cs, node.routingTable = (RoutingTable.new node.nodeInfo node.config).insertAll cs

section Grown

variable {node : Node}

theorem Node.Grown.wellPlaced (h : node.Grown) : node.routingTable.WellPlaced := by
  obtain ⟨cs, hcs⟩ := h
  rw [hcs]
  exact wellPlaced_insertAll _ _ cs

theorem Node.Grown.table_id (h : node.Grown) : node.nodeInfo.id = node.routingTable.id := by
  obtain ⟨cs, hcs⟩ := h
  rw [hcs, id_insertAll]
  rfl

theorem Node.Grown.table_config (h : node.Grown) : node.routingTable.config = node.config := by
  obtain ⟨cs, hcs⟩ := h
  rw [hcs, config_insertAll]
  rfl

/-- Of the node itself and its contacts, only the node has its id. -/
theorem Node.Grown.any_own_nearest (h : node.Grown) (key : Address) (k : Nat) :
    ((nearest (distanceTo key) k (node.nodeInfo :: node.routingTable.contacts)).map
        NodeInfo.toInformation).any (fun n => n.id = node.nodeInfo.id.toStr) = true ↔
      node.routingTable.closerContacts key < k := by
  have hplaced := h.wellPlaced
  rw [← hplaced.own_mem_nearest h.table_id key k]
  simp only [List.any_map, List.any_eq_true, Function.comp_apply, decide_eq_true_eq]
  constructor
  · rintro ⟨n, hn, hid⟩
    have hsame : n.id = node.nodeInfo.id := Address.toStr_injective hid
    rcases List.mem_cons.mp (List.mem_mergeSort.mp (List.mem_of_mem_take hn)) with rfl | hcontact
    · exact hn
    · obtain ⟨i, _, hbucket⟩ := (mem_contacts hplaced.length_table).mp hcontact
      have hidx := hplaced.index i n hbucket
      rw [bucketIndex_eq_none.mpr (hsame.trans h.table_id)] at hidx
      cases hidx
  · intro hown
    exact ⟨node.nodeInfo, hown, rfl⟩

end Grown

/-- A STORE that is read up to its auction is kept when the node finds itself
among the closest. -/
theorem Server.keeps_store {libs : Libraries} (server : Server) {request : AuthenticatedMessage}
    {payload : StoreRequest} {senderProto : NodeInformation} {sender : NodeInfo}
    {auctionProto : Proto.Auction} {auction : Auction}
    (hopen : openRequest libs libs.prost.storeRequest request = .ok (payload, senderProto, sender))
    (hpayload : payload.auction = some auctionProto)
    (hauction : Auction.tryFrom auctionProto = .ok auction) :
    server.keeps libs .store request = some auction ↔
      (server.host.node.getClosestNodesToKey auction.key).any
        (fun n => n.id = server.host.node.nodeInfo.id.toStr) = true := by
  unfold keeps
  simp only [hopen, hpayload, Option.bind_eq_bind, Option.bind_some, hauction, Except.toOption,
    ite_eq_left_iff, reduceCtorEq, imp_false, not_not]

/-- **Responsibility**: for every table that insertions build and every key,
a node knows the nearest nodes and keeps what it is responsible for exactly
when the scan that starts with the node itself covers the table. -/
theorem responsible_iff (libs : Libraries) {server : Server} (hgrown : server.host.node.Grown)
    (key : Address) :
    server.ResponsibleFor libs key ↔ server.host.node.routingTable.SeededScanCovers key := by
  have hscan := hgrown.wellPlaced.getKClosestNodes_own_eq_iff hgrown.table_id key
  rw [hgrown.table_config] at hscan
  rw [← hscan]
  have hlist : server.host.node.getClosestNodesToKey key =
      (server.host.node.routingTable.getKClosestNodes key [server.host.node.nodeInfo]).map
        NodeInfo.toInformation := rfl
  constructor
  · intro h
    refine List.map_injective_iff.mpr NodeInfo.toInformation_injective ?_
    rw [← hlist, h.closest]
  · intro hnearest
    have hclosest := hlist.trans (congrArg _ hnearest)
    refine ⟨hclosest, fun request payload senderProto sender auctionProto auction hopen hpayload
      hauction hkey => ?_⟩
    rw [server.keeps_store hopen hpayload hauction, hkey, hclosest]
    exact hgrown.any_own_nearest key _

/-- The server 1 with one contact, asking for one node. -/
def neighborServer : Server :=
  { sampleServer with host := { sampleServer.host with node := { sampleServer.host.node with
      config := { Config.testConfig with kValue := 1 }
      routingTable := (RoutingTable.new sampleServer.host.node.nodeInfo
        { Config.testConfig with kValue := 1 }).insertAll [sampleNode 5] } } }

theorem grown_neighborServer : neighborServer.host.node.Grown := ⟨[sampleNode 5], rfl⟩

/-- Key 5 is the contact's, and the scan sees it. -/
theorem responsible_iff_neighborServer :
    neighborServer.ResponsibleFor lookupLibraries (sampleNode 5).id ↔
      neighborServer.host.node.routingTable.SeededScanCovers (sampleNode 5).id :=
  responsible_iff lookupLibraries grown_neighborServer (sampleNode 5).id

/-- The auction with key 21. -/
def nearKeyWatch : Auction := { soldWatch with key := (sampleNode 21).id }

/-- The contact 5, in bucket 1, is at distance 16 from key 21 and the node
itself at distance 20; but the scan stops at the empty bucket 3. -/
theorem closest_neighborServer :
    neighborServer.host.node.getClosestNodesToKey (sampleNode 21).id =
        [neighborServer.host.node.nodeInfo.toInformation] ∧
      neighborServer.host.node.routingTable.closerContacts (sampleNode 21).id = 1 := by
  have hscan : neighborServer.host.node.routingTable.collectNodes
      (neighborServer.host.node.routingTable.bucketIndices (sampleNode 21).id)
        [neighborServer.host.node.nodeInfo] = [neighborServer.host.node.nodeInfo] := by
    have hidx : bucketIndex neighborServer.host.node.routingTable.id (sampleNode 21).id = some 3 := by
      decide +kernel
    rw [bucketIndices_eq (by decide +kernel), hidx]
    decide +kernel
  refine ⟨?_, by decide +kernel⟩
  have hone : neighborServer.host.node.routingTable.config.kValue = 1 := rfl
  unfold Node.getClosestNodesToKey getKClosestNodes
  simp only [hscan, List.mergeSort_singleton, hone, List.take_succ_cons, List.take_zero,
    List.map_cons, List.map_nil]

/-- **A node keeps what is not its own**: a contact is strictly closer to key
21, one node is to hold it, and the node itself keeps it. -/
theorem keeps_anothers_key :
    neighborServer.keeps (storeLibraries nearKeyWatch) .store storeRequest.message =
        some nearKeyWatch ∧
      ¬ ∀ (libs : Libraries) (server : Server), server.host.node.Grown →
        ∀ key, server.ResponsibleFor libs key := by
  have hopen : Server.openRequest (storeLibraries nearKeyWatch)
      (storeLibraries nearKeyWatch).prost.storeRequest storeRequest.message =
        .ok ({ auction := some nearKeyWatch.toProto }, stranger.toInformation, stranger) :=
    Server.openRequest_eq_ok.mpr ⟨rfl, rfl, rfl, rfl, rfl⟩
  have hauction : Auction.tryFrom nearKeyWatch.toProto = .ok nearKeyWatch :=
    Auction.tryFrom_toProto (by decide)
  have hkeeps : neighborServer.keeps (storeLibraries nearKeyWatch) .store storeRequest.message =
      some nearKeyWatch := by
    rw [neighborServer.keeps_store hopen rfl hauction]
    rw [show nearKeyWatch.key = (sampleNode 21).id from rfl, closest_neighborServer.1]
    simp [NodeInfo.toInformation]
  refine ⟨hkeeps, fun hclaim => ?_⟩
  have hcloser := ((hclaim (storeLibraries nearKeyWatch) neighborServer grown_neighborServer
    (sampleNode 21).id).keeps _ _ _ _ _ _ hopen rfl hauction rfl).mp hkeeps
  rw [closest_neighborServer.2] at hcloser
  exact absurd hcloser (by decide)

end KademliaAuction

/-
KademliaAuction.GRpc.BidNetwork — clients that bid through a bootstrap node.

A bid is a read, a change and a write of a whole auction: a client takes the
version in its own store, or one that FIND_VALUE returns, places its bid on
that copy, stores the result and sends it to the bootstrap node, whose
`store` handler replaces what it has. `bidNetwork` has any number of nodes,
each with a command under way or none, and the STOREs in flight between
them; reads, local stores and deliveries of different nodes interleave
freely, and a node forwards what it is sent.

`acknowledged_bids_kept`: in the runs in which no stale version is written to
the bootstrap node, that node keeps every bid it acknowledged and its price
never falls. `stale_bid_overwrites` is a run in which two clients read the
same version.
-/
import KademliaAuction.AuctionTheorems
import KademliaAuction.GRpc.Client
import KademliaAuction.GRpc.JoinTheorems

namespace KademliaAuction

open Blockchain Proto Routing Storage Lib

/-! ## Prices -/

/-- What is published is above the starting price if what it was made from
is. -/
theorem Publication.aboveStart {p : Publication} (h : p.base.AboveStart) : p.auction.AboveStart := by
  intro bid hbid
  rw [p.auction_bids, List.mem_append, Option.mem_toList] at hbid
  rw [p.auction_initialValue]
  rcases hbid with hold | hnew
  · exact h bid hold
  · exact h.initialValue_le.trans_lt (p.highestBidAmount_lt hnew)

/-- The publication is not stale where `current` is held: the version it was
made from has every bid of `current`, or it repeats these bids; and the
auction does not start lower. -/
def Publication.UpToDate (p : Publication) (current : Auction) : Prop :=
  current.initialValue ≤ p.base.initialValue ∧
    (current.bids ⊆ p.base.bids ∨ current.bids = p.auction.bids)

/-! ## The network -/

/-- A STORE request on its way. -/
structure StorePacket (ι : Type) where
  sender : NodeInfo
  receiver : ι
  publication : Publication

/-- The nodes; what each of them is about to publish; the STORE requests in
flight; and, by auction key, the bids whose STORE the bootstrap node has
answered. -/
structure BidNetwork (ι : Type) where
  servers : ι → Server
  pending : ι → Option Publication
  inFlight : List (StorePacket ι)
  acknowledged : List (Address × Bid)

/-- What stays as it is in a run: the libraries, the bootstrap node, and who
answers at an ip and port. -/
structure Site (ι : Type) where
  libs : Libraries
  bootstrap : ι
  endpoint : String → Nat → Option ι

/-- The steps. A command reads and makes its publication in one step, since
it works on its own copy; storing it locally, and each delivery, are steps of
their own. Routing tables change at any time, as other requests come in. -/
inductive BidAction (ι : Type) where
  | createAuction (node : ι) (object : String) (initialValue : Nat) (durationMs now : Int)
  | bid (node : ι) (key : Address) (source : ι) (amount : Nat) (now : Int)
  | bidOnRandomAuction (node : ι) (auction : Auction) (increment : Nat) (now : Int)
  | storeLocally (node : ι) (effects : Effects)
  | deliver (n : Nat) (inputs : Inputs)
  | lose (n : Nat)
  | insertContact (node : ι) (contact : NodeInfo)
  | restart (node : ι) (config : Config)

namespace BidNetwork

variable {ι : Type} [DecidableEq ι] (site : Site ι) (net : BidNetwork ι)

/-- The node in memory. -/
def node (i : ι) : Node := (net.servers i).host.node

/-- `find_auction_in_network`: the version in the node's own store, else the
one that some node asked for it holds. -/
def findAuctionInNetwork (i source : ι) (key : Address) : Option Auction :=
  match (net.node i).findAuction key with
  | some auction => some auction
  | none =>
      ((net.node source).findAuction key).bind fun auction =>
        (Auction.tryFrom auction.toProto).toOption

/-- The node that is asked takes the asking one into its routing table. -/
def asked (i source : ι) (key : Address) : BidNetwork ι :=
  match (net.node i).findAuction key with
  | some _ => net
  | none =>
      { net with
        servers := Function.update net.servers source
          ((net.servers source).insertSender (net.node i).nodeInfo) }

/-- The node is about to publish. -/
def began (i : ι) (p : Publication) : BidNetwork ι :=
  { net with pending := Function.update net.pending i (some p) }

/-- A node without a command under way begins one. -/
def begin (i : ι) (publication : Option Publication) : Option (BidNetwork ι) :=
  match net.pending i with
  | some _ => none
  | none => publication.map (net.began i)

/-- `publish_auction`: store locally, then send to the bootstrap node, unless
this is the bootstrap node or storing failed. -/
def publishAuction (i : ι) (effects : Effects) (p : Publication) : BidNetwork ι :=
  let server := net.servers i
  let stored := server.host.storeAuction site.libs.toCrates effects p.auction
  let packet : StorePacket ι :=
    { sender := server.host.node.nodeInfo, receiver := site.bootstrap, publication := p }
  { net with
    servers := Function.update net.servers i { server with host := stored.2 }
    pending := Function.update net.pending i none
    inFlight := if stored.1.isOk ∧ i ≠ site.bootstrap then net.inFlight ++ [packet]
      else net.inFlight }

/-- The STORE requests that a receiver sends on. -/
def forwarded (sender : NodeInfo) (p : Publication) (targets : List NodeInformation) :
    List (StorePacket ι) :=
  targets.filterMap fun info =>
    (site.endpoint info.ip info.port).map fun receiver => { sender, receiver, publication := p }

/-- The `store` handler of the receiver takes a request. The bid counts as
acknowledged when the bootstrap node answers. -/
def deliver (n : Nat) (inputs : Inputs) (packet : StorePacket ι) : BidNetwork ι :=
  let rest := net.inFlight.eraseIdx n
  let server := net.servers packet.receiver
  let p := packet.publication
  match Auction.tryFrom p.auction.toProto with
  | .error _ => { net with inFlight := rest }
  | .ok auction =>
      let handled := server.storeDecoded site.libs inputs packet.sender auction
      let answered := if packet.receiver = site.bootstrap ∧ handled.reply.isOk then
        p.newBid.toList.map fun bid => (p.auction.key, bid) else []
      { net with
        servers := Function.update net.servers packet.receiver handled.server
        inFlight := rest ++ forwarded site server.host.node.nodeInfo p handled.forwards
        acknowledged := net.acknowledged ++ answered }

/-- One step. The bootstrap node runs on; other processes end and start again
on their data directories, as one-shot commands do. -/
def step : BidAction ι → Option (BidNetwork ι)
  | .createAuction i object initialValue durationMs now =>
      net.begin i (some (Client.createAuction site.libs.toCrates (net.node i) object initialValue
        durationMs now))
  | .bid i key source amount now =>
      (net.asked i source key).begin i ((net.findAuctionInNetwork i source key).bind fun found =>
        Client.bid (net.node i) found amount now)
  | .bidOnRandomAuction i auction increment now =>
      net.begin i (Client.bidOnRandomAuction (net.node i) auction increment now)
  | .storeLocally i effects => (net.pending i).map (net.publishAuction site i effects)
  | .deliver n inputs => net.inFlight[n]?.map (net.deliver site n inputs)
  | .lose n => some { net with inFlight := net.inFlight.eraseIdx n }
  | .insertContact i contact =>
      some { net with
        servers := Function.update net.servers i ((net.servers i).insertSender contact) }
  | .restart i config =>
      if i = site.bootstrap ∨ config.dataDir ≠ (net.node i).config.dataDir then none
      else some { net with
        servers := Function.update net.servers i (Server.new ((net.servers i).host.restart config))
        pending := Function.update net.pending i none }

end BidNetwork

variable {ι : Type} [DecidableEq ι]

/-- Nodes with empty stores, no commands under way and no messages. -/
def BidNetwork.Empty (net : BidNetwork ι) : Prop :=
  (∀ i, (net.node i).auctions.elems = [] ∧ (net.servers i).host.disk.auctions = .absent) ∧
    (∀ i, net.pending i = none) ∧ net.inFlight = [] ∧ net.acknowledged = []

def bidNetwork (site : Site ι) : System (BidNetwork ι) (BidAction ι) where
  Init := BidNetwork.Empty
  next := fun net action => net.step site action

namespace BidNetwork

/-- The auction of a key at the bootstrap node. -/
def held (site : Site ι) (net : BidNetwork ι) (key : Address) : Option Auction :=
  (net.node site.bootstrap).findAuction key

/-- Where a step delivers a STORE to the bootstrap node, that node is among
the closest to the key. -/
def BootstrapAmongClosest (site : Site ι) (net : BidNetwork ι) (action : BidAction ι) : Prop :=
  ∀ n inputs packet, action = .deliver n inputs → net.inFlight[n]? = some packet →
    packet.receiver = site.bootstrap →
      ((net.node site.bootstrap).getClosestNodesToKey packet.publication.auction.key).any
        (fun info => info.id = (net.node site.bootstrap).nodeInfo.id.toStr) = true

/-- The publication that a step writes to the store of the bootstrap node. -/
def written (site : Site ι) (net : BidNetwork ι) : BidAction ι → Option Publication
  | .storeLocally i _ => if i = site.bootstrap then net.pending i else none
  | .deliver n _ => net.inFlight[n]?.bind fun packet =>
      if packet.receiver = site.bootstrap then some packet.publication else none
  | _ => none

/-- A step writes no stale publication to the bootstrap node. -/
def WritesUpToDate (site : Site ι) (net : BidNetwork ι) (action : BidAction ι) : Prop :=
  ∀ p, net.written site action = some p → ∀ current, net.held site p.auction.key = some current →
    p.UpToDate current

end BidNetwork

/-! ## Above the starting price everywhere -/

/-- The auctions of the store and of its file are above their starting
prices. -/
structure Host.AllAboveStart (host : Host) : Prop where
  store : ∀ auction ∈ host.node.auctions, auction.AboveStart
  file : ∀ auctions, host.disk.auctions = .json auctions → ∀ auction ∈ auctions, auction.AboveStart

theorem Host.allAboveStart_iff {host : Host} :
    host.AllAboveStart ↔ host.Holds Auction.AboveStart :=
  ⟨fun h => ⟨h.store, h.file⟩, fun h => ⟨h.store, h.file⟩⟩

theorem Host.AllAboveStart.storeAuction {host : Host} (h : host.AllAboveStart) {auction : Auction}
    (hauction : auction.AboveStart) (crates : Crates) (effects : Effects) :
    (host.storeAuction crates effects auction).2.AllAboveStart :=
  allAboveStart_iff.mpr ((allAboveStart_iff.mp h).storeAuction hauction crates effects)

theorem Host.AllAboveStart.restart {host : Host} (h : host.AllAboveStart) (config : Config) :
    (host.restart config).AllAboveStart :=
  allAboveStart_iff.mpr ((allAboveStart_iff.mp h).restart config)

namespace BidNetwork

/-- Stores, files, pending publications and requests in flight: all are above
their starting prices. -/
structure AllAboveStart (net : BidNetwork ι) : Prop where
  hosts : ∀ i, (net.servers i).host.AllAboveStart
  pending : ∀ i p, net.pending i = some p → p.base.AboveStart
  inFlight : ∀ packet ∈ net.inFlight, packet.publication.base.AboveStart

variable {site : Site ι} {net net' : BidNetwork ι}

/-- Beginning a command changes nothing but what is pending. -/
theorem begin_eq_some {i : ι} {publication : Option Publication} :
    net.begin i publication = some net' ↔
      net.pending i = none ∧ ∃ p, publication = some p ∧ net' = net.began i p := by
  unfold begin
  cases net.pending i with
  | none => simp [eq_comm]
  | some p => simp

omit [DecidableEq ι] in
/-- What a command finds is the version of some store, as it is there or as it
is received. -/
theorem found_aboveStart (h : net.AllAboveStart) {i source : ι} {key : Address} {found : Auction}
    (hfound : net.findAuctionInNetwork i source key = some found) : found.AboveStart := by
  unfold findAuctionInNetwork at hfound
  split at hfound
  · rename_i auction hlocal
    obtain rfl := Option.some.inj hfound
    exact (h.hosts i).store auction (KeyedSet.find_eq_some.mp hlocal).1
  · obtain ⟨auction, hremote, hreceived⟩ := Option.bind_eq_some_iff.mp hfound
    rw [Auction.tryFrom_toProto_received] at hreceived
    obtain rfl : auction.received = found := Option.some.inj hreceived
    exact ((h.hosts source).store auction (KeyedSet.find_eq_some.mp hremote).1).of_eq
      auction.received_bids auction.received_initialValue

theorem AllAboveStart.begin (h : net.AllAboveStart) {i : ι} {publication : Option Publication}
    (hbase : ∀ p, publication = some p → p.base.AboveStart)
    (hbegin : net.begin i publication = some net') : net'.AllAboveStart := by
  obtain ⟨_, p, hp, rfl⟩ := begin_eq_some.mp hbegin
  refine ⟨h.hosts, fun j q hq => ?_, h.inFlight⟩
  unfold began at hq
  by_cases hj : j = i
  · subst hj
    obtain rfl : p = q := by simpa using hq
    exact hbase p hp
  · exact h.pending j q (by simpa [hj] using hq)

/-- Changing one server, with nothing new pending or in flight. -/
theorem AllAboveStart.update (h : net.AllAboveStart) {i : ι} {server : Server}
    (hserver : server.host.AllAboveStart) {pending : ι → Option Publication}
    (hpending : ∀ j p, pending j = some p → net.pending j = some p) {inFlight : List (StorePacket ι)}
    (hinFlight : ∀ packet ∈ inFlight, packet ∈ net.inFlight ∨
      packet.publication.base.AboveStart) {acknowledged : List (Address × Bid)} :
    AllAboveStart
      { servers := Function.update net.servers i server, pending, inFlight, acknowledged } := by
  refine ⟨fun j => ?_, fun j p hp => h.pending j p (hpending j p hp), fun packet hpacket => ?_⟩
  · by_cases hj : j = i
    · subst hj
      simpa using hserver
    · simpa [hj] using h.hosts j
  · rcases hinFlight packet hpacket with hold | hnew
    · exact h.inFlight packet hold
    · exact hnew

theorem pending_update_none {pending : ι → Option Publication} {i : ι} :
    ∀ j p, Function.update pending i none j = some p → pending j = some p := by
  intro j p hp
  by_cases hj : j = i
  · subst hj
    simp at hp
  · simpa [hj] using hp

theorem AllAboveStart.asked (h : net.AllAboveStart) (i source : ι) (key : Address) :
    (net.asked i source key).AllAboveStart := by
  unfold BidNetwork.asked
  split
  · exact h
  · have hserver : ((net.servers source).insertSender (net.node i).nodeInfo).host.AllAboveStart :=
      ⟨(h.hosts source).store, (h.hosts source).file⟩
    exact h.update hserver (fun _ _ => id) fun _ => Or.inl

theorem AllAboveStart.step (h : net.AllAboveStart) {action : BidAction ι}
    (hstep : net.step site action = some net') : net'.AllAboveStart := by
  cases action with
  | createAuction i object initialValue durationMs now =>
    refine h.begin (fun p hp => ?_) hstep
    obtain rfl := Option.some.inj hp
    intro bid hbid
    cases hbid
  | bid i key source amount now =>
    refine AllAboveStart.begin (h.asked i source key) (fun p hp => ?_) hstep
    obtain ⟨found, hfound, hplaced⟩ := Option.bind_eq_some_iff.mp hp
    rw [Client.base_placeBid hplaced]
    exact found_aboveStart h hfound
  | bidOnRandomAuction i auction increment now =>
    refine h.begin (fun p hp => ?_) hstep
    obtain ⟨rfl, hmem⟩ := Client.base_bidOnRandomAuction hp
    exact (h.hosts i).store _ hmem
  | storeLocally i effects =>
    obtain ⟨p, hp, rfl⟩ := Option.map_eq_some_iff.mp hstep
    have hbase := h.pending i p hp
    refine h.update ((h.hosts i).storeAuction (Publication.aboveStart hbase) _ _)
      pending_update_none fun packet hpacket => ?_
    split at hpacket
    · rcases List.mem_append.mp hpacket with hold | hnew
      · exact Or.inl hold
      · exact Or.inr (List.mem_singleton.mp hnew ▸ hbase)
    · exact Or.inl hpacket
  | deliver n inputs =>
    obtain ⟨packet, hpacket, rfl⟩ := Option.map_eq_some_iff.mp hstep
    have hbase := h.inFlight packet (List.mem_of_getElem? hpacket)
    unfold deliver
    simp only [Auction.tryFrom_toProto_received]
    refine h.update ?_ (fun _ _ => id) fun other hother => ?_
    · rw [Server.storeDecoded_host]
      split
      · refine (h.hosts packet.receiver).storeAuction ?_ _ _
        exact (Publication.aboveStart hbase).of_eq (Auction.received_bids _)
          (Auction.received_initialValue _)
      · exact h.hosts packet.receiver
    · rcases List.mem_append.mp hother with hold | hnew
      · exact Or.inl (List.mem_of_mem_eraseIdx hold)
      · obtain ⟨info, _, hinfo⟩ := List.mem_filterMap.mp hnew
        obtain ⟨receiver, _, rfl⟩ := Option.map_eq_some_iff.mp hinfo
        exact Or.inr hbase
  | lose n =>
    obtain rfl := Option.some.inj hstep
    exact ⟨h.hosts, h.pending, fun packet hpacket => h.inFlight packet (List.mem_of_mem_eraseIdx hpacket)⟩
  | insertContact i contact =>
    obtain rfl := Option.some.inj hstep
    have hserver : ((net.servers i).insertSender contact).host.AllAboveStart :=
      ⟨(h.hosts i).store, (h.hosts i).file⟩
    exact h.update hserver (fun _ _ => id) fun _ => Or.inl
  | restart i config =>
    simp only [BidNetwork.step] at hstep
    split at hstep
    · cases hstep
    · obtain rfl := Option.some.inj hstep
      exact h.update ((h.hosts i).restart config) pending_update_none fun _ => Or.inl

/-! ## What a step writes to the bootstrap node -/

/-- The store of a node after one server has been changed. -/
theorem node_update (i j : ι) (server : Server) (pending : ι → Option Publication)
    (inFlight : List (StorePacket ι)) (acknowledged : List (Address × Bid)) :
    ({ servers := Function.update net.servers i server, pending, inFlight, acknowledged } :
        BidNetwork ι).node j = if j = i then server.host.node else net.node j := by
  unfold node
  by_cases h : j = i
  · subst h
    simp
  · simp [h]

theorem node_insertSender (net : BidNetwork ι) (i j : ι) (contact : NodeInfo) :
    (BidNetwork.node { net with
        servers := Function.update net.servers i ((net.servers i).insertSender contact) }
      j).auctions = (net.node j).auctions := by
  rw [node_update]
  split
  · rename_i h
    rw [h]
    rfl
  · rfl

theorem asked_store (net : BidNetwork ι) (i source : ι) (key : Address) (j : ι) :
    ((net.asked i source key).node j).auctions = (net.node j).auctions ∧
      (net.asked i source key).acknowledged = net.acknowledged := by
  unfold asked
  split
  · exact ⟨rfl, rfl⟩
  · exact ⟨node_insertSender .., rfl⟩

/-- A delivery leaves routing tables alone. -/
theorem deliver_table (site : Site ι) (net : BidNetwork ι) (n : Nat) (inputs : Inputs)
    (packet : StorePacket ι) (j : ι) :
    ((net.deliver site n inputs packet).node j).routingTable = (net.node j).routingTable ∧
      ((net.deliver site n inputs packet).node j).nodeInfo = (net.node j).nodeInfo := by
  unfold deliver
  simp only [Auction.tryFrom_toProto_received, node_update]
  split
  · rename_i hj
    subst hj
    exact (net.servers packet.receiver).storeDecoded_node ..
  · exact ⟨rfl, rfl⟩

/-- The bootstrap node's store and the acknowledged bids after a step: as they
were, or with the written publication in its place and its bid perhaps
acknowledged. -/
theorem step_written {action : BidAction ι} (hclosest : net.BootstrapAmongClosest site action)
    (hstep : net.step site action = some net') :
    (net.written site action = none ∧ (net'.node site.bootstrap).auctions =
        (net.node site.bootstrap).auctions ∧ net'.acknowledged = net.acknowledged) ∨
    ∃ p stored, net.written site action = some p ∧ stored.key = p.auction.key ∧
      stored.bids = p.auction.bids ∧ stored.initialValue = p.auction.initialValue ∧
      (net'.node site.bootstrap).auctions = (net.node site.bootstrap).auctions.replace stored ∧
      ∀ entry ∈ net'.acknowledged, entry ∈ net.acknowledged ∨
        ∃ bid, p.newBid = some bid ∧ entry = (p.auction.key, bid) := by
  have hbegin : ∀ {before : BidNetwork ι} {i : ι} {publication : Option Publication},
      before.begin i publication = some net' →
        (net'.node site.bootstrap).auctions = (before.node site.bootstrap).auctions ∧
          net'.acknowledged = before.acknowledged := by
    intro before i publication h
    obtain ⟨_, p, _, rfl⟩ := begin_eq_some.mp h
    exact ⟨rfl, rfl⟩
  cases action with
  | createAuction i object initialValue durationMs now => exact Or.inl ⟨rfl, hbegin hstep⟩
  | bid i key source amount now =>
    obtain ⟨hauctions, hacknowledged⟩ := hbegin hstep
    obtain ⟨hstore, hsame⟩ := net.asked_store i source key site.bootstrap
    exact Or.inl ⟨rfl, hauctions.trans hstore, hacknowledged.trans hsame⟩
  | bidOnRandomAuction i auction increment now => exact Or.inl ⟨rfl, hbegin hstep⟩
  | storeLocally i effects =>
    obtain ⟨p, hp, rfl⟩ := Option.map_eq_some_iff.mp hstep
    unfold publishAuction
    simp only [node_update]
    by_cases hi : i = site.bootstrap
    · subst hi
      refine Or.inr ⟨p, p.auction, by simp [written, hp], rfl, rfl, rfl, ?_, fun _ => Or.inl⟩
      rw [if_pos rfl]
      exact ((net.servers site.bootstrap).host.storeAuction_commits _ _ _).1
    · exact Or.inl ⟨by simp [written, hi], by rw [if_neg (Ne.symm hi)], trivial⟩
  | deliver n inputs =>
    obtain ⟨packet, hpacket, rfl⟩ := Option.map_eq_some_iff.mp hstep
    unfold deliver
    simp only [Auction.tryFrom_toProto_received, node_update, Server.storeDecoded_host]
    by_cases hreceiver : packet.receiver = site.bootstrap
    · have hkept := hclosest n inputs packet rfl hpacket hreceiver
      refine Or.inr ⟨packet.publication, packet.publication.auction.received,
        by simp [written, hpacket, hreceiver], by simp, by simp, by simp, ?_, ?_⟩
      · rw [if_pos hreceiver.symm, hreceiver, Auction.received_key]
        unfold node at hkept
        rw [if_pos hkept]
        exact ((net.servers site.bootstrap).host.storeAuction_commits _ _ _).1
      · intro entry hentry
        rcases List.mem_append.mp hentry with hold | hnew
        · exact Or.inl hold
        · split at hnew
          · obtain ⟨bid, hbid, rfl⟩ := List.mem_map.mp hnew
            exact Or.inr ⟨bid, Option.mem_toList.mp hbid, rfl⟩
          · cases hnew
    · refine Or.inl ⟨by simp [written, hpacket, hreceiver], ?_, by simp [hreceiver]⟩
      rw [if_neg (Ne.symm hreceiver)]
  | lose n =>
    obtain rfl := Option.some.inj hstep
    exact Or.inl ⟨rfl, rfl, rfl⟩
  | insertContact i contact =>
    obtain rfl := Option.some.inj hstep
    exact Or.inl ⟨rfl, node_insertSender .., rfl⟩
  | restart i config =>
    simp only [BidNetwork.step] at hstep
    split at hstep
    · cases hstep
    · rename_i hi
      push Not at hi
      obtain rfl := Option.some.inj hstep
      refine Or.inl ⟨rfl, ?_, rfl⟩
      rw [node_update, if_neg (Ne.symm hi.1)]

theorem AllAboveStart.written (h : net.AllAboveStart) {action : BidAction ι} {p : Publication}
    (hp : net.written site action = some p) : p.base.AboveStart := by
  cases action with
  | storeLocally i effects =>
    simp only [BidNetwork.written] at hp
    split at hp
    · exact h.pending i p hp
    · cases hp
  | deliver n inputs =>
    obtain ⟨packet, hpacket, hsent⟩ := Option.bind_eq_some_iff.mp hp
    split at hsent
    · obtain rfl := Option.some.inj hsent
      exact h.inFlight packet (List.mem_of_getElem? hpacket)
    · cases hsent
  | createAuction | bid | bidOnRandomAuction | lose | insertContact | restart => cases hp

/-- Where no stale publication is written, the bootstrap node keeps the bids
of every auction, and no price falls. -/
theorem held_step {action : BidAction ι} (habove : net.AllAboveStart)
    (hclosest : net.BootstrapAmongClosest site action) (hfresh : net.WritesUpToDate site action)
    (hstep : net.step site action = some net') {key : Address} {current : Auction}
    (hheld : net.held site key = some current) :
    ∃ after, net'.held site key = some after ∧ current.bids ⊆ after.bids ∧
      current.highestBidAmount ≤ after.highestBidAmount := by
  unfold held Node.findAuction at hheld ⊢
  rcases step_written hclosest hstep with
    ⟨_, hsame, _⟩ | ⟨p, stored, hp, hkey, hbids, hstart, hauctions, _⟩
  · rw [hsame]
    exact ⟨current, hheld, List.Subset.refl _, le_rfl⟩
  · rw [hauctions, KeyedSet.find_replace]
    by_cases hsame : stored.key = key
    · rw [if_pos hsame]
      have hcurrent : net.held site p.auction.key = some current := by
        rw [← hkey, hsame]
        exact hheld
      obtain ⟨hlow, hversion⟩ := hfresh p hp current hcurrent
      have hkept : current.bids ⊆ stored.bids := by
        rw [hbids]
        rcases hversion with hread | hrepeated
        · rw [p.auction_bids]
          exact List.Subset.trans hread (List.subset_append_left _ _)
        · rw [hrepeated]
          exact List.Subset.refl _
      have habove' : stored.AboveStart :=
        (Publication.aboveStart (habove.written hp)).of_eq hbids hstart
      refine ⟨stored, rfl, hkept, habove'.highestBidAmount_mono ?_ hkept⟩
      rw [hstart, p.auction_initialValue]
      exact hlow
    · rw [if_neg hsame]
      exact ⟨current, hheld, List.Subset.refl _, le_rfl⟩

/-- Every acknowledged bid is among those of the bootstrap node's auction. -/
def KeepsAcknowledged (site : Site ι) (net : BidNetwork ι) : Prop :=
  ∀ key bid, (key, bid) ∈ net.acknowledged →
    ∃ auction, net.held site key = some auction ∧ bid ∈ auction.bids

theorem KeepsAcknowledged.step {action : BidAction ι} (h : net.KeepsAcknowledged site)
    (habove : net.AllAboveStart) (hclosest : net.BootstrapAmongClosest site action)
    (hfresh : net.WritesUpToDate site action) (hstep : net.step site action = some net') :
    net'.KeepsAcknowledged site := by
  have hold : ∀ key bid, (key, bid) ∈ net.acknowledged →
      ∃ auction, net'.held site key = some auction ∧ bid ∈ auction.bids := by
    intro key bid hmem
    obtain ⟨current, hheld, hbid⟩ := h key bid hmem
    obtain ⟨after, hafter, hbids, _⟩ := held_step habove hclosest hfresh hstep hheld
    exact ⟨after, hafter, hbids hbid⟩
  intro key bid hmem
  rcases step_written hclosest hstep with
    ⟨_, _, hsame⟩ | ⟨p, stored, _, hkey, hbids, _, hauctions, hnew⟩
  · rw [hsame] at hmem
    exact hold key bid hmem
  · rcases hnew _ hmem with hbefore | ⟨placed, hplaced, hentry⟩
    · exact hold key bid hbefore
    · obtain ⟨rfl, rfl⟩ := Prod.mk.inj hentry
      refine ⟨stored, ?_, ?_⟩
      · unfold held Node.findAuction
        rw [hauctions, KeyedSet.find_replace, if_pos hkey]
      · rw [hbids, p.auction_bids]
        exact List.mem_append_right _ (Option.mem_toList.mpr hplaced)

omit [DecidableEq ι] in
theorem allAboveStart_of_empty (h : net.Empty) : net.AllAboveStart := by
  obtain ⟨hstores, hpending, hinFlight, _⟩ := h
  refine ⟨fun i => ⟨fun a ha => ?_, fun auctions hfile => ?_⟩, fun i p hp => ?_, fun packet hp => ?_⟩
  · rw [KeyedSet.mem_def, show (net.servers i).host.node.auctions.elems = [] from (hstores i).1] at ha
    cases ha
  · rw [(hstores i).2] at hfile
    cases hfile
  · rw [hpending i] at hp
    cases hp
  · rw [hinFlight] at hp
    cases hp

/-- What was written is held. -/
theorem held_of_written {action : BidAction ι} (hclosest : net.BootstrapAmongClosest site action)
    (hstep : net.step site action = some net') {p : Publication}
    (hp : net.written site action = some p) :
    ∃ stored, net'.held site p.auction.key = some stored ∧ stored.bids = p.auction.bids := by
  rcases step_written hclosest hstep with
    ⟨hnone, _⟩ | ⟨q, stored, hq, hkey, hbids, _, hauctions, _⟩
  · rw [hnone] at hp
    cases hp
  · obtain rfl := Option.some.inj (hq.symm.trans hp)
    refine ⟨stored, ?_, hbids⟩
    unfold held Node.findAuction
    rw [hauctions, KeyedSet.find_replace, if_pos hkey]

end BidNetwork

/-- **No acknowledged bid is lost** in a run in which the bootstrap node is
among the closest to the keys it is sent and no stale publication is written
to it: it holds every bid it acknowledged, and a step does not lower the price
of an auction it holds. -/
theorem acknowledged_bids_kept (site : Site ι) {net : BidNetwork ι}
    (h : (bidNetwork site).ReachableUnder
      (fun net action => net.BootstrapAmongClosest site action ∧ net.WritesUpToDate site action) net) :
    net.KeepsAcknowledged site ∧
      ∀ action net', net.BootstrapAmongClosest site action → net.WritesUpToDate site action →
        (bidNetwork site).next net action = some net' →
        ∀ key current, net.held site key = some current →
          ∃ after, net'.held site key = some after ∧
            current.highestBidAmount ≤ after.highestBidAmount := by
  have hinv : net.AllAboveStart ∧ net.KeepsAcknowledged site := by
    refine h.invariant (I := fun net => net.AllAboveStart ∧ net.KeepsAcknowledged site) ?_ ?_
    · intro net hempty
      refine ⟨BidNetwork.allAboveStart_of_empty hempty, fun key bid hmem => ?_⟩
      rw [hempty.2.2.2] at hmem
      cases hmem
    · intro net action net' ⟨habove, hkept⟩ ⟨hclosest, hfresh⟩ hnext
      exact ⟨habove.step hnext, hkept.step habove hclosest hfresh hnext⟩
  refine ⟨hinv.2, fun action net' hclosest hfresh hnext key current hheld => ?_⟩
  obtain ⟨after, hafter, _, hprice⟩ := BidNetwork.held_step hinv.1 hclosest hfresh hnext hheld
  exact ⟨after, hafter, hprice⟩

/-- A node whose contacts leave room is among the closest to every key. -/
theorem Node.amongClosest {node : Node} (hplaced : node.routingTable.WellPlaced)
    (hroom : 1 + node.routingTable.contacts.length < node.routingTable.config.kValue) (key : Address) :
    (node.getClosestNodesToKey key).any (fun info => info.id = node.nodeInfo.id.toStr) = true := by
  have hown : node.nodeInfo ∈ node.routingTable.getKClosestNodes key [node.nodeInfo] :=
    (hplaced.mem_getKClosestNodes (by simpa using hroom)).mpr (Or.inl (List.mem_singleton_self _))
  refine List.any_eq_true.mpr ⟨node.nodeInfo.toInformation, List.mem_map_of_mem hown, ?_⟩
  exact decide_eq_true rfl

/-! The bootstrap node offers a watch. Two clients ask for it, and both bid on
the version without bids. -/

/-- Nobody answers where a STORE is sent on to: one-shot commands have ended
by then. -/
def bidSite : Site (Fin 3) where
  libs := lookupLibraries
  bootstrap := 0
  endpoint := fun _ _ => none

def bidStart : BidNetwork (Fin 3) where
  servers := fun i => Server.new
    (Host.fresh (sampleNode i.val).id "127.0.0.1" 8000 { Config.testConfig with kValue := 4 })
  pending := fun _ => none
  inFlight := []
  acknowledged := []

def watchOffer : Publication :=
  Client.createAuction bidSite.libs.toCrates (bidStart.node 0) "watch" 100 30000 0

/-- A first bid on the watch. -/
def firstBid (i : Fin 3) (amount : Nat) : Bid where
  buyer := (sampleNode i.val).id
  auction := watchOffer.auction.key
  amount := amount

def bidOnWatch (i : Fin 3) (amount : Nat) (h : 100 < amount) : Publication :=
  .bid watchOffer.auction { watchOffer.auction with bids := [firstBid i amount] }
    (sampleNode i.val).id amount 1 (Auction.placeBid_eq_ok.mpr ⟨rfl, by decide, h, rfl⟩)

def highBid : Publication := bidOnWatch 1 120 (by decide)

def lowBid : Publication := bidOnWatch 2 110 (by decide)

def storeFrom (i : Fin 3) (p : Publication) : StorePacket (Fin 3) where
  sender := { id := (sampleNode i.val).id, ip := "127.0.0.1", port := 8000 }
  receiver := 0
  publication := p

def bidOffered : BidNetwork (Fin 3) := bidStart.began 0 watchOffer

def bidHeld : BidNetwork (Fin 3) := bidOffered.publishAuction bidSite 0 (Effects.calm 0) watchOffer

def bidHigh : BidNetwork (Fin 3) := (bidHeld.asked 1 0 watchOffer.auction.key).began 1 highBid

def bidBoth : BidNetwork (Fin 3) := (bidHigh.asked 2 0 watchOffer.auction.key).began 2 lowBid

def bidHighSent : BidNetwork (Fin 3) := bidBoth.publishAuction bidSite 1 (Effects.calm 2) highBid

def bidBothSent : BidNetwork (Fin 3) := bidHighSent.publishAuction bidSite 2 (Effects.calm 3) lowBid

def bidDelivered : BidNetwork (Fin 3) :=
  bidBothSent.deliver bidSite 0 sampleInputs (storeFrom 1 highBid)

def bidOverwritten : BidNetwork (Fin 3) :=
  bidDelivered.deliver bidSite 0 sampleInputs (storeFrom 2 lowBid)

namespace BidNetwork

/-- The bid of a client that asks the bootstrap node for the watch. -/
theorem step_bidOnWatch {net : BidNetwork (Fin 3)} {i : Fin 3} {amount : Nat} (h : 100 < amount)
    (hpending : (net.asked i 0 watchOffer.auction.key).pending i = none)
    (hid : (net.node i).nodeInfo.id = (sampleNode i.val).id)
    (hlocal : (net.node i).findAuction watchOffer.auction.key = none)
    (hheld : (net.node 0).findAuction watchOffer.auction.key = some watchOffer.auction) :
    net.step bidSite (.bid i watchOffer.auction.key 0 amount 1) =
      some ((net.asked i 0 watchOffer.auction.key).began i (bidOnWatch i amount h)) := by
  have hfound : net.findAuctionInNetwork i 0 watchOffer.auction.key = some watchOffer.auction := by
    unfold findAuctionInNetwork
    simp only [hlocal, hheld, Option.bind_some, Auction.tryFrom_toProto_received]
    rfl
  refine begin_eq_some.mpr ⟨hpending, bidOnWatch i amount h, ?_, rfl⟩
  rw [hfound, Option.bind_some]
  unfold Client.bid
  rw [hid]
  exact Client.placeBid_of_ok _

/-- With nobody to send it on to, a delivered request is gone. -/
theorem deliver_inFlight (net : BidNetwork (Fin 3)) (n : Nat) (inputs : Inputs)
    (packet : StorePacket (Fin 3)) :
    (net.deliver bidSite n inputs packet).inFlight = net.inFlight.eraseIdx n := by
  have hnobody : ∀ (sender : NodeInfo) (p : Publication) (targets : List NodeInformation),
      forwarded bidSite sender p targets = [] := by
    intro sender p targets
    exact List.filterMap_eq_nil_iff.mpr fun _ _ => rfl
  unfold deliver
  simp only [Auction.tryFrom_toProto_received, hnobody, List.append_nil]

/-- The bootstrap node answers. -/
theorem deliver_acknowledged (net : BidNetwork (Fin 3)) (n : Nat) (inputs : Inputs)
    {packet : StorePacket (Fin 3)} (hreceiver : packet.receiver = 0) :
    (net.deliver bidSite n inputs packet).acknowledged = net.acknowledged ++
      packet.publication.newBid.toList.map fun bid => (packet.publication.auction.key, bid) := by
  have hreply : ∀ (server : Server) (sender : NodeInfo) (auction : Auction),
      (server.storeDecoded bidSite.libs inputs sender auction).reply.isOk = true := by
    intro server sender auction
    unfold Server.storeDecoded
    simp only
    split <;> rfl
  unfold deliver
  simp only [Auction.tryFrom_toProto_received]
  rw [if_pos ⟨hreceiver, hreply _ _ _⟩]

end BidNetwork

theorem inFlight_bidBothSent : bidBothSent.inFlight = [storeFrom 1 highBid, storeFrom 2 lowBid] := rfl

theorem inFlight_bidDelivered : bidDelivered.inFlight = [storeFrom 2 lowBid] :=
  bidBothSent.deliver_inFlight 0 sampleInputs (storeFrom 1 highBid)

/-- The bootstrap node has two contacts and room for four. -/
theorem amongClosest_bidBothSent (action : BidAction (Fin 3)) :
    bidBothSent.BootstrapAmongClosest bidSite action := by
  intro n inputs packet _ _ _
  have hplaced : (bidBothSent.node 0).routingTable.WellPlaced :=
    RoutingTable.wellPlaced_insertAll (sampleNode 0) { Config.testConfig with kValue := 4 }
      [sampleNode 1, sampleNode 2]
  exact Node.amongClosest hplaced (by decide +kernel) _

theorem amongClosest_bidDelivered (action : BidAction (Fin 3)) :
    bidDelivered.BootstrapAmongClosest bidSite action := by
  intro n inputs packet _ _ _
  obtain ⟨htable, _⟩ := bidBothSent.deliver_table bidSite 0 sampleInputs (storeFrom 1 highBid) 0
  have hplaced : (bidBothSent.node 0).routingTable.WellPlaced :=
    RoutingTable.wellPlaced_insertAll (sampleNode 0) { Config.testConfig with kValue := 4 }
      [sampleNode 1, sampleNode 2]
  have hsame : (bidDelivered.node 0).routingTable = (bidBothSent.node 0).routingTable := htable
  have hroom : 1 + (bidBothSent.node 0).routingTable.contacts.length <
      (bidBothSent.node 0).routingTable.config.kValue := by decide +kernel
  rw [← hsame] at hplaced hroom
  exact Node.amongClosest hplaced hroom _

theorem step_bidOffered :
    bidStart.step bidSite (.createAuction 0 "watch" 100 30000 0) = some bidOffered := rfl

theorem step_bidHeld : bidOffered.step bidSite (.storeLocally 0 (Effects.calm 0)) = some bidHeld :=
  rfl

theorem step_bidHigh : bidHeld.step bidSite (.bid 1 watchOffer.auction.key 0 120 1) = some bidHigh :=
  BidNetwork.step_bidOnWatch (by decide) rfl rfl (by decide +kernel) (by decide +kernel)

theorem step_bidBoth : bidHigh.step bidSite (.bid 2 watchOffer.auction.key 0 110 1) = some bidBoth :=
  BidNetwork.step_bidOnWatch (by decide) rfl rfl (by decide +kernel) (by decide +kernel)

theorem step_bidHighSent :
    bidBoth.step bidSite (.storeLocally 1 (Effects.calm 2)) = some bidHighSent := rfl

theorem step_bidBothSent :
    bidHighSent.step bidSite (.storeLocally 2 (Effects.calm 3)) = some bidBothSent := rfl

/-- A step that writes nothing to the bootstrap node and delivers nothing. -/
theorem BidNetwork.quiet {net : BidNetwork (Fin 3)} {action : BidAction (Fin 3)}
    (hnone : net.written bidSite action = none) (hdeliver : ∀ n inputs, action ≠ .deliver n inputs) :
    net.BootstrapAmongClosest bidSite action ∧ net.WritesUpToDate bidSite action := by
  refine ⟨fun n inputs packet haction => absurd haction (hdeliver n inputs), fun p hp => ?_⟩
  rw [hnone] at hp
  cases hp

/-- Up to the delivery of the high bid nothing stale is written. -/
theorem reachable_bidBothSent :
    (bidNetwork bidSite).ReachableUnder (fun net action =>
      net.BootstrapAmongClosest bidSite action ∧ net.WritesUpToDate bidSite action) bidBothSent := by
  have hstart : (bidNetwork bidSite).ReachableUnder (fun net action =>
      net.BootstrapAmongClosest bidSite action ∧ net.WritesUpToDate bidSite action) bidStart :=
    .init ⟨fun _ => ⟨rfl, rfl⟩, fun _ => rfl, rfl, rfl⟩
  have hoffered := hstart.step (a := .createAuction 0 "watch" 100 30000 0)
    (BidNetwork.quiet rfl nofun) step_bidOffered
  have hempty : bidOffered.WritesUpToDate bidSite (.storeLocally 0 (Effects.calm 0)) := by
    intro p _ current hcurrent
    rw [show bidOffered.held bidSite p.auction.key = none from rfl] at hcurrent
    cases hcurrent
  have hheld := hoffered.step (a := .storeLocally 0 (Effects.calm 0))
    ⟨fun _ _ _ h => (nomatch h), hempty⟩ step_bidHeld
  have hhigh := hheld.step (a := .bid 1 watchOffer.auction.key 0 120 1)
    (BidNetwork.quiet rfl nofun) step_bidHigh
  have hboth := hhigh.step (a := .bid 2 watchOffer.auction.key 0 110 1)
    (BidNetwork.quiet rfl nofun) step_bidBoth
  have hfirst := hboth.step (a := .storeLocally 1 (Effects.calm 2))
    (BidNetwork.quiet rfl nofun) step_bidHighSent
  exact hfirst.step (a := .storeLocally 2 (Effects.calm 3))
    (BidNetwork.quiet rfl nofun) step_bidBothSent

theorem step_bidDelivered : bidBothSent.step bidSite (.deliver 0 sampleInputs) = some bidDelivered := by
  show bidBothSent.inFlight[0]?.map (bidBothSent.deliver bidSite 0 sampleInputs) = some bidDelivered
  rw [inFlight_bidBothSent]
  rfl

theorem step_bidOverwritten :
    bidDelivered.step bidSite (.deliver 0 sampleInputs) = some bidOverwritten := by
  show bidDelivered.inFlight[0]?.map (bidDelivered.deliver bidSite 0 sampleInputs) =
    some bidOverwritten
  rw [inFlight_bidDelivered]
  rfl

/-- The high bid was placed on what the bootstrap node holds. -/
theorem reachable_bidDelivered :
    (bidNetwork bidSite).ReachableUnder (fun net action =>
      net.BootstrapAmongClosest bidSite action ∧ net.WritesUpToDate bidSite action) bidDelivered := by
  refine reachable_bidBothSent.step (a := .deliver 0 sampleInputs)
    ⟨amongClosest_bidBothSent _, fun p hp current hcurrent => ?_⟩ step_bidDelivered
  have hwritten : bidBothSent.written bidSite (.deliver 0 sampleInputs) = some highBid := rfl
  obtain rfl := Option.some.inj (hwritten.symm.trans hp)
  have hoffer : bidBothSent.held bidSite highBid.auction.key = some watchOffer.auction := by
    decide +kernel
  obtain rfl := Option.some.inj (hoffer.symm.trans hcurrent)
  exact ⟨le_rfl, Or.inl (List.nil_subset _)⟩

/-- The high bid is acknowledged. -/
theorem mem_acknowledged_bidDelivered :
    (watchOffer.auction.key, firstBid 1 120) ∈ bidDelivered.acknowledged := by
  unfold bidDelivered
  rw [bidBothSent.deliver_acknowledged 0 sampleInputs rfl]
  exact List.mem_append_right _ (List.mem_singleton_self _)

theorem acknowledged_bids_kept_bidDelivered :
    ∃ auction, bidDelivered.held bidSite watchOffer.auction.key = some auction ∧
      firstBid 1 120 ∈ auction.bids :=
  (acknowledged_bids_kept bidSite reachable_bidDelivered).1 _ _ mem_acknowledged_bidDelivered

/-- **A stale bid overwrites a higher one**: both clients read the watch
without bids; when the lower bid is delivered after the higher one was
acknowledged, the higher one is gone and the price falls. -/
theorem stale_bid_overwrites :
    ¬ (∀ net, (bidNetwork bidSite).ReachableUnder
        (fun net action => net.BootstrapAmongClosest bidSite action) net →
      net.KeepsAcknowledged bidSite) ∧
    ¬ (∀ net action net', (bidNetwork bidSite).ReachableUnder
        (fun net action => net.BootstrapAmongClosest bidSite action) net →
      net.BootstrapAmongClosest bidSite action → (bidNetwork bidSite).next net action = some net' →
      ∀ key current, net.held bidSite key = some current →
        ∃ after, net'.held bidSite key = some after ∧
          current.highestBidAmount ≤ after.highestBidAmount) := by
  have hdelivered : (bidNetwork bidSite).ReachableUnder
      (fun net action => net.BootstrapAmongClosest bidSite action) bidDelivered :=
    reachable_bidDelivered.mono fun _ _ h => h.1
  have hoverwritten : (bidNetwork bidSite).ReachableUnder
      (fun net action => net.BootstrapAmongClosest bidSite action) bidOverwritten :=
    .step hdelivered (amongClosest_bidDelivered (.deliver 0 sampleInputs)) step_bidOverwritten
  obtain ⟨high, hhigh, hhighbids⟩ := BidNetwork.held_of_written (p := highBid)
    (amongClosest_bidBothSent _) step_bidDelivered rfl
  have hwritten : bidDelivered.written bidSite (.deliver 0 sampleInputs) = some lowBid := by
    unfold BidNetwork.written
    rw [inFlight_bidDelivered]
    rfl
  obtain ⟨low, hlow, hlowbids⟩ := BidNetwork.held_of_written
    (amongClosest_bidDelivered _) step_bidOverwritten hwritten
  have hprice : ∀ {a : Auction} {bid : Bid}, a.bids = [bid] → a.highestBidAmount = bid.amount := by
    intro a bid hbids
    unfold Auction.highestBidAmount
    rw [hbids]
    rfl
  constructor
  · intro hall
    have hmem : (watchOffer.auction.key, firstBid 1 120) ∈ bidOverwritten.acknowledged := by
      unfold bidOverwritten
      rw [bidDelivered.deliver_acknowledged 0 sampleInputs rfl]
      exact List.mem_append_left _ mem_acknowledged_bidDelivered
    obtain ⟨auction, hheld, hbid⟩ := hall bidOverwritten hoverwritten _ _ hmem
    obtain rfl := Option.some.inj (hlow.symm.trans hheld)
    rw [hlowbids] at hbid
    have hsame : 120 = 110 := congrArg Bid.amount (List.mem_singleton.mp hbid)
    cases hsame
  · intro hall
    obtain ⟨after, hafter, hle⟩ := hall bidDelivered (.deliver 0 sampleInputs) bidOverwritten
      hdelivered (amongClosest_bidDelivered _) step_bidOverwritten _ high hhigh
    obtain rfl := Option.some.inj (hlow.symm.trans hafter)
    rw [hprice hhighbids, hprice hlowbids] at hle
    exact absurd hle (by decide)

end KademliaAuction

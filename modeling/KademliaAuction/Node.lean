/-
KademliaAuction.Node — a node, its auction store and its ledger
(`src/node.rs`).

`Node` is what the process holds in memory; a `Host` is a node together with
its data directory, which outlives it. Every method takes its locks once and
for its whole body, so a call is one step: it takes the host to a result and
a host. Failing methods keep what they changed before the failure, as the
source does: `store_auction` replaces the auction before it writes the file,
and `record_auction_win` appends the block before it saves the ledger.

What a call takes from outside is in its arguments. `Effects` says how its
writes end and what the clock shows when a block is made; since a call makes
at most one block of each index, both are indexed by the block.
`close_expired_auctions` runs through the hash set in an order of its own,
given as a list.
-/
import KademliaAuction.Consensus
import KademliaAuction.Lib.KeyedSet
import KademliaAuction.Routing.RoutingTable
import KademliaAuction.Storage

namespace KademliaAuction

open Blockchain Routing Storage Lib

/-- `HashSet<Auction>`: auctions are compared by their key. -/
abbrev AuctionSet := KeyedSet Auction Auction.key

/-- `struct Node`. -/
structure Node where
  nodeInfo : NodeInfo
  routingTable : RoutingTable
  config : Config
  auctions : AuctionSet
  ledger : List Block

/-- A node and its data directory. -/
structure Host where
  node : Node
  disk : DataDir

/-- What the environment decides during one call: how the write of
`auctions.json` ends, how the write of `ledger.json` with block `n` as its
last ends, and the time at which block `n` is made. -/
structure Effects where
  auctionsWrite : WriteOutcome
  ledgerWrite : Nat → WriteOutcome
  clock : Nat → Int

/-- All writes succeed. -/
def Effects.AllWritten (effects : Effects) : Prop :=
  effects.auctionsWrite = .written ∧ ∀ n, effects.ledgerWrite n = .written

/-- The `if let (Some(winner), Some(winning_bid))` of both callers of
`record_auction_win`. -/
def Auction.declaredWin (auction : Auction) : Option (Address × Nat) :=
  match auction.winner, auction.winningBid with
  | some winner, some winningBid => some (winner, winningBid)
  | _, _ => none

/-- The first `any` of `record_auction_win`: a block of the ledger holds an
`AuctionWon` transaction for this auction. -/
def recordsWin (ledger : List Block) (auction : Address) : Bool :=
  ledger.any fun block => block.transactions.any fun tx => tx.wonKey? = some auction

/-- The block that `record_auction_win` pushes on a ledger. -/
def winBlock (crates : Crates) (effects : Effects) (ledger : List Block)
    (auction seller winner : Address) (winningBid : Nat) : Block :=
  let previousHash := (ledger.getLast?.map Block.hash).getD 0
  Block.new crates ledger.length 0 previousHash
    [Transaction.auctionWon auction seller winner winningBid] (effects.clock ledger.length)

/-! ## The methods -/

namespace Node

/-- `Node::new`: a file that cannot be loaded counts as empty. -/
def new (id : Address) (ip : String) (port : Nat) (config : Config) (disk : DataDir) : Node :=
  let nodeInfo : NodeInfo := { id, ip, port }
  { nodeInfo, config
    routingTable := RoutingTable.new nodeInfo config
    auctions := KeyedSet.collect ((loadAuctions config.dataDir disk).toOption.getD [])
    ledger := (loadLedger config.dataDir disk).toOption.getD [] }

/-- `insert_node_to_routing_table`. -/
def insertNodeToRoutingTable (node : Node) (nodeInfo : NodeInfo) : Node :=
  { node with routingTable := (node.routingTable.insertContact nodeInfo).2 }

/-- `find_node_in_routing_table`. -/
def findNodeInRoutingTable (node : Node) (nodeId : Address) : Option Proto.NodeInformation :=
  (node.routingTable.findNodeId nodeId).map NodeInfo.toInformation

/-- `get_closest_nodes_to_key`: the node itself is in the list from the
start. -/
def getClosestNodesToKey (node : Node) (nodeId : Address) : List Proto.NodeInformation :=
  (node.routingTable.getKClosestNodes nodeId [node.nodeInfo]).map NodeInfo.toInformation

/-- `find_auction`. -/
def findAuction (node : Node) (key : Address) : Option Auction := node.auctions.find key

/-- `all_auctions`. -/
def allAuctions (node : Node) : List Auction := node.auctions.elems

end Node

namespace Host

variable (crates : Crates) (effects : Effects)

/-- `persist_auctions_locked`. -/
def persistAuctionsLocked (host : Host) : Except String Unit × Host :=
  let (saved, disk) := saveAuctions host.node.config.dataDir host.disk host.node.auctions.elems
    effects.auctionsWrite
  (saved, { host with disk })

/-- `record_auction_win`. -/
def recordAuctionWin (host : Host) (auction seller winner : Address) (winningBid : Nat) :
    Except String Unit × Host :=
  let ledger := host.node.ledger
  if recordsWin ledger auction then (.ok (), host)
  else if hasReputationToCommit host.node.config ledger host.node.nodeInfo.id = false then
    (.ok (), host)
  else
    let pushed := ledger ++ [winBlock crates effects ledger auction seller winner winningBid]
    let (saved, disk) := saveLedger host.node.config.dataDir host.disk pushed
      (effects.ledgerWrite ledger.length)
    (saved, { node := { host.node with ledger := pushed }, disk })

/-- Record the win of an auction that has a winner and a winning bid. -/
def recordDeclaredWin (host : Host) (auction : Auction) : Except String Unit × Host :=
  match auction.declaredWin with
  | some (winner, winningBid) =>
      host.recordAuctionWin crates effects auction.key auction.seller winner winningBid
  | none => (.ok (), host)

/-- `store_auction`. -/
def storeAuction (host : Host) (auction : Auction) : Except String Bool × Host :=
  let auctions := host.node.auctions.replace auction
  match persistAuctionsLocked effects { host with node := { host.node with auctions } } with
  | (.error e, host) => (.error e, host)
  | (.ok (), host) =>
      match host.recordDeclaredWin crates effects auction with
      | (.error e, host) => (.error e, host)
      | (.ok (), host) => (.ok true, host)

/-- The loop of `close_expired_auctions`, with its vectors `closed` and
`updated`. -/
def closeLoop (now : Int) : List Auction → Host → List Auction → List Auction →
    Except String (List Auction × List Auction) × Host
  | [], host, closed, updated => (.ok (closed, updated), host)
  | auction :: rest, host, closed, updated =>
      match auction.closeIfExpired now with
      | (true, auction) =>
          match host.recordDeclaredWin crates effects auction with
          | (.error e, host) => (.error e, host)
          | (.ok (), host) =>
              closeLoop now rest host (closed ++ [auction]) (updated ++ [auction])
      | (false, auction) => closeLoop now rest host closed (updated ++ [auction])

/-- `close_expired_auctions`, running through the store in the given
order. -/
def closeExpiredAuctions (host : Host) (now : Int) (order : List Auction) :
    Except String (List Auction) × Host :=
  match closeLoop crates effects now order host [] [] with
  | (.error e, host) => (.error e, host)
  | (.ok (closed, updated), host) =>
      let auctions := KeyedSet.collect updated
      match persistAuctionsLocked effects { host with node := { host.node with auctions } } with
      | (.error e, host) => (.error e, host)
      | (.ok (), host) => (.ok closed, host)

/-- A node that starts on an empty data directory. -/
def fresh (id : Address) (ip : String) (port : Nat) (config : Config) : Host :=
  let disk : DataDir := { auctions := .absent, ledger := .absent }
  { node := Node.new id ip port config disk, disk }

/-- The process ends and starts again on the same data directory, with a
configuration read anew. -/
def restart (host : Host) (config : Config) : Host :=
  { host with
    node := Node.new host.node.nodeInfo.id host.node.nodeInfo.ip host.node.nodeInfo.port config
      host.disk }

end Host

end KademliaAuction

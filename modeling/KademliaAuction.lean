import KademliaAuction.Lib.HashChain
import KademliaAuction.Lib.KeyedSet
import KademliaAuction.Lib.Recency
import KademliaAuction.Lib.Transition
import KademliaAuction.Lib.Delivery
import KademliaAuction.Auction
import KademliaAuction.AuctionTheorems
import KademliaAuction.Consensus
import KademliaAuction.Routing.ClosestNodes
import KademliaAuction.Node
import KademliaAuction.NodeTheorems
import KademliaAuction.OfferKeys
import KademliaAuction.LedgerTheorems
import KademliaAuction.Reputation
import KademliaAuction.StoreRefinement
import KademliaAuction.Durability
import KademliaAuction.LedgerHistory
import KademliaAuction.WinnerAgreement
import KademliaAuction.GRpc.Server
import KademliaAuction.GRpc.Client
import KademliaAuction.GRpc.JoinTheorems
import KademliaAuction.GRpc.AuthTheorems
import KademliaAuction.GRpc.SettlementTheorems
import KademliaAuction.GRpc.HeldAuctions
import KademliaAuction.GRpc.StorePropagation
import KademliaAuction.GRpc.WireTheorems
import KademliaAuction.GRpc.TrialDecoding
import KademliaAuction.GRpc.BidNetwork
import KademliaAuction.Recovery
import KademliaAuction.GRpc.Automation
import KademliaAuction.GRpc.ChallengeTheorems
import KademliaAuction.GRpc.ChallengeRaces
import KademliaAuction.GRpc.Discovery
import KademliaAuction.GRpc.DiscoveryTheorems
import KademliaAuction.Lib.BreadthFirst
import KademliaAuction.Lib.Protobuf
import KademliaAuction.Proto.Encoding
import KademliaAuction.GRpc.Lookup
import KademliaAuction.GRpc.LookupTheorems
import KademliaAuction.Routing.Capacity
import KademliaAuction.Routing.SeededScan
import KademliaAuction.GRpc.Responsibility
import KademliaAuction.AuctionForwarding
import KademliaAuction.GRpc.IdentityTheorems
import KademliaAuction.FailedCalls
import KademliaAuction.Lib.LiveSearch
import KademliaAuction.GRpc.AutomationArithmetic
import KademliaAuction.GRpc.LookupTermination
import KademliaAuction.GRpc.BidProvenance
import KademliaAuction.Command
import KademliaAuction.GRpc.Calls
import KademliaAuction.GRpc.Joining
import KademliaAuction.GRpc.RunCommand
import KademliaAuction.GRpc.AuctionHouse
import KademliaAuction.GRpc.HouseRefinement
import KademliaAuction.Lib.Pem
import KademliaAuction.Utils.ReadConfig
import KademliaAuction.Utils.SetupKeys
import KademliaAuction.Startup
import KademliaAuction.StartupTheorems
import KademliaAuction.GRpc.StoreOutcome
import KademliaAuction.GRpc.Overlay
import KademliaAuction.Lib.Meeting
import KademliaAuction.Routing.Members
import KademliaAuction.GRpc.OverlaySteps
import KademliaAuction.GRpc.OverlayTheorems

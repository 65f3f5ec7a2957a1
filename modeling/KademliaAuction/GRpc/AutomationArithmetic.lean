/-
KademliaAuction.GRpc.AutomationArithmetic — where the sums of the automation
overflow.

`bid_on_random_auction` adds an increment to the price of an auction from the
store, in `u64`, and `new_with_duration` adds the configured duration to the
clock, in `i64`. The prices come from peers: the decoder takes any amount, and
`place_bid` any that is higher than the last. The duration comes from the
environment, and `Config::read` takes any `i64`.

`automation_arithmetic_iff` says when both sums fit: while the auctions that a
participant keeps or publishes leave room for the largest increment, and
while the duration leaves room for the clock.
-/
import KademliaAuction.GRpc.Automation
import KademliaAuction.GRpc.SettlementTheorems

namespace KademliaAuction

open Blockchain Proto Routing Lib

/-! ## The sums -/

namespace Automation

/-- The `auctions` among which `bid_on_random_auction` chooses. -/
def biddable (node : Node) : List Auction :=
  node.allAuctions.filter fun auction =>
    auction.status = .Open ∧ auction.seller ≠ node.nodeInfo.id

/-- The amount it bids, where additions wrap. -/
def bidAmount (auction : Auction) (increment : Nat) : Nat :=
  (auction.highestBidAmount + increment) % 2 ^ 64

theorem mem_biddable {node : Node} {auction : Auction} :
    auction ∈ biddable node ↔
      auction ∈ node.auctions ∧ auction.status = .Open ∧ auction.seller ≠ node.nodeInfo.id := by
  simp [biddable, Node.allAuctions, KeyedSet.mem_def]

end Automation

open Automation

/-- Whatever auction and increment are drawn, the sum fits into a `u64`, and
is above the price. -/
def BidsFit (server : Server) : Prop :=
  ∀ auction ∈ biddable server.host.node, ∀ increment, 1 ≤ increment → increment < 25 →
    auction.highestBidAmount + increment < 2 ^ 64 ∧
      auction.highestBidAmount < bidAmount auction increment

/-- If the auction can be bid on by the node with this id, its price is at
least 24 below the largest `u64`. -/
def Auction.LeavesRoom (own : Address) (auction : Auction) : Prop :=
  auction.status = .Open → auction.seller ≠ own → auction.highestBidAmount ≤ 2 ^ 64 - 25

theorem bidsFit_iff {server : Server} :
    BidsFit server ↔
      ∀ auction ∈ server.host.node.auctions, auction.LeavesRoom server.host.node.nodeInfo.id := by
  constructor
  · intro hfit auction hmem hopen hother
    have hlargest := (hfit auction (mem_biddable.mpr ⟨hmem, hopen, hother⟩) 24 (by omega) (by omega)).1
    omega
  · intro hroom auction hmem increment hpos hlt
    obtain ⟨hheld, hopen, hother⟩ := mem_biddable.mp hmem
    have hprice := hroom auction hheld hopen hother
    have hsum : auction.highestBidAmount + increment < 2 ^ 64 := by omega
    refine ⟨hsum, ?_⟩
    rw [bidAmount, Nat.mod_eq_of_lt hsum]
    omega

/-! ## Runs -/

/-- A request or a closing pass, or a command that publishes an offer or a
bid. -/
inductive ParticipantAction where
  | server (action : ServerAction)
  | publish (p : Publication) (effects : Effects)

/-- A server whose node publishes auctions itself. `publish_auction` stores
the auction on the own node. -/
def participant (libs : Libraries) (Init : Server → Prop) : System Server ParticipantAction where
  Init := Init
  next := fun server action =>
    match action with
    | .server action => (serverSystem libs Init).next server action
    | .publish p effects =>
        some { server with host := (server.host.storeAuction libs.toCrates effects p.auction).2 }

/-- The auction that the step has the node keep, if any, leaves room. -/
def KeepsRoom (libs : Libraries) (server : Server) : ParticipantAction → Prop
  | .server (.request r) => ∀ auction, server.keeps libs r.rpc r.message = some auction →
      auction.LeavesRoom server.host.node.nodeInfo.id
  | .server (.close ..) => True
  | .publish p _ => p.auction.LeavesRoom server.host.node.nodeInfo.id

variable {libs : Libraries} {Init : Server → Prop}

/-- A node that keeps one more auction. -/
theorem mem_storeAuction_iff {host : Host} {auction : Auction} (crates : Crates) (effects : Effects)
    {Q : Auction → Prop} (hheld : ∀ a ∈ host.node.auctions, Q a) :
    (∀ a ∈ (host.storeAuction crates effects auction).2.node.auctions, Q a) ↔ Q auction := by
  constructor
  · intro hall
    exact hall auction Host.mem_storeAuction_self
  · intro hnew
    exact Host.forall_mem_storeAuction hnew hheld

/-- One step keeps the sums in range exactly when what it has the node keep
leaves room. -/
theorem bidsFit_step {server server' : Server} {action : ParticipantAction} (hfit : BidsFit server)
    (hnext : (participant libs Init).next server action = some server') :
    BidsFit server' ↔ KeepsRoom libs server action := by
  rw [bidsFit_iff] at hfit ⊢
  cases action with
  | publish p effects =>
    obtain rfl := Option.some.inj hnext
    dsimp only
    rw [Host.nodeInfo_storeAuction]
    exact mem_storeAuction_iff libs.toCrates effects hfit
  | server action =>
    cases action with
    | close now order effects =>
      refine iff_of_true ?_ trivial
      have hserver : (serverSystem libs Init).next server (.close now order effects) = some server' :=
        hnext
      have hinfo : server'.host.node.nodeInfo = server.host.node.nodeInfo := by
        obtain ⟨host, hhost, rfl⟩ := Option.map_eq_some_iff.mp hnext
        obtain ⟨_, rfl⟩ := NodeAction.apply_close.mp hhost
        exact server.host.nodeInfo_closeExpiredAuctions libs.toCrates effects now order
      rw [hinfo]
      refine held_step (fun auction _ _ hopen => ?_) (fun r hr => by cases hr) hserver hfit
      rw [Auction.close_status] at hopen
      cases hopen
    | request r =>
      have hinfo : server'.host.node.nodeInfo = server.host.node.nodeInfo := by
        obtain rfl := Option.some.inj hnext
        exact (server.handle_routingTable libs r.rpc r.inputs r.message).2
      rw [hinfo]
      constructor
      · intro hall auction hkeeps
        obtain rfl := Option.some.inj hnext
        rw [Server.handle_host_of_keeps libs hkeeps r.inputs] at hall
        exact (mem_storeAuction_iff libs.toCrates r.inputs.effects hfit).mp hall
      · intro hroom
        obtain rfl := Option.some.inj hnext
        exact held_request hroom hfit

/-- **When the automation's sums fit**. In a run of requests, closing passes
and publications, with any contents and any write failures, every sum of price
and increment fits in every state exactly when the auctions held at the start,
kept from STORE requests and published leave room for the largest increment.
And for an `AUCTION_DURATION_MS`, the deadline of a new auction fits at every
time up to `latest` exactly when the duration leaves room for that time. -/
theorem automation_arithmetic_iff (libs : Libraries) (server : Server)
    (actions : List ParticipantAction) (value : Option String) (latest : Nat) :
    ((participant libs (· = server)).Throughout BidsFit server actions ↔
      (∀ auction ∈ server.host.node.auctions, auction.LeavesRoom server.host.node.nodeInfo.id) ∧
        (participant libs (· = server)).StepsMeet (KeepsRoom libs) server actions) ∧
    ((∀ (object : String) (initialValue : Nat) (seller : Address) (now : Int), 0 ≤ now →
        now ≤ latest → InI64 (Auction.newWithDuration libs.toCrates object initialValue seller
          (Config.readAuctionDurationMs value) now).endsAt) ↔
      Config.readAuctionDurationMs value < 2 ^ 63 - latest) := by
  constructor
  · rw [← bidsFit_iff]
    have hruns : BidsFit server →
        ((participant libs (· = server)).Throughout BidsFit server actions ↔
          (participant libs (· = server)).StepsMeet (KeepsRoom libs) server actions) := by
      refine System.throughout_iff_stepsMeet (I := fun _ => True) (fun _ _ _ _ _ => trivial) ?_
        (fun s a s' _ hfit hnext => bidsFit_step hfit hnext) actions server trivial
      -- Requests and publications are always taken.
      intro s a hnone
      cases a with
      | publish p effects => cases hnone
      | server action =>
        cases action with
        | request r => cases hnone
        | close now order effects => trivial
    constructor
    · intro hall
      exact ⟨hall.head, (hruns hall.head).mp hall⟩
    · intro ⟨hstart, hsteps⟩
      exact (hruns hstart).mpr hsteps
  · have hread := Config.inI64_readAuctionDurationMs value
    simp only [Auction.newWithDuration_endsAt]
    unfold InI64 at hread ⊢
    constructor
    · intro hall
      have hlast := hall "" 0 default latest (by omega) (by omega)
      omega
    · intro hroom object initialValue seller now hpos hle
      omega

/-- An open auction of another node at the highest price there is. -/
def dearCamera : Auction :=
  Auction.newWithDuration lookupLibraries.toCrates "camera" (2 ^ 64 - 1) (Address.ofU256 3) 1000 0

/-- **Both sums overflow**: an auction at the highest price is kept from a
STORE request, and every increment goes beyond `u64`; and the longest
duration that can be configured goes beyond `i64` from the first millisecond
on. -/
theorem automation_overflows :
    ¬ (participant (storeLibraries dearCamera) (· = sampleServer)).Throughout BidsFit sampleServer
        [.server (.request storeRequest)] ∧
      ¬ InI64 (Auction.newWithDuration lookupLibraries.toCrates "camera" 20 (Address.ofU256 1)
        (Config.readAuctionDurationMs (some "9223372036854775807")) 1).endsAt := by
  constructor
  · intro hall
    have hbid : dearCamera.winningBid ≠ some 0 := by simp [dearCamera]
    have hfit : BidsFit (sampleStored dearCamera) := (hall.2 _ rfl).head
    rw [bidsFit_iff, sampleStored_host hbid] at hfit
    have hprice := hfit dearCamera Host.mem_storeAuction_self rfl (by decide +kernel)
    exact absurd hprice (by decide +kernel)
  · rw [Auction.newWithDuration_endsAt]
    decide +kernel

end KademliaAuction

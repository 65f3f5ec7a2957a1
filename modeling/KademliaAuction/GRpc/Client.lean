/-
KademliaAuction.GRpc.Client — the commands that publish auctions
(`src/g_rpc/client.rs`).

`CreateAuction`, `Bid` and `bid_on_random_auction` each make one version of
an auction and hand it to `publish_auction`, which stores it on the client's
own node and sends it to the bootstrap node. A `Publication` is that version
together with the one it was made from; for a bid it carries the proof that
`place_bid` accepted it, so that nothing but an offer or an accepted bid can
be published.
-/
import KademliaAuction.GRpc.Server

namespace KademliaAuction

open Blockchain Routing

/-- What a command publishes: a new auction, or a version with one more
bid. -/
inductive Publication where
  | offer (auction : Auction)
  | bid (base auction : Auction) (buyer : Address) (amount : Nat) (now : Int)
      (placed : base.placeBid buyer amount now = .ok auction)

namespace Publication

/-- The version that the command started from. -/
def base : Publication → Auction
  | .offer auction => auction
  | .bid base .. => base

/-- The version that is published. -/
def auction : Publication → Auction
  | .offer auction => auction
  | .bid _ auction .. => auction

/-- The bid that the command places. -/
def newBid : Publication → Option Bid
  | .offer _ => none
  | .bid base _ buyer amount _ _ => some { buyer, auction := base.key, amount }

variable (p : Publication)

@[simp] theorem auction_key : p.auction.key = p.base.key := by
  cases p with
  | offer auction => rfl
  | bid base auction buyer amount now placed =>
    obtain ⟨_, _, _, rfl⟩ := Auction.placeBid_eq_ok.mp placed
    rfl

@[simp] theorem auction_initialValue : p.auction.initialValue = p.base.initialValue := by
  cases p with
  | offer auction => rfl
  | bid base auction buyer amount now placed =>
    obtain ⟨_, _, _, rfl⟩ := Auction.placeBid_eq_ok.mp placed
    rfl

/-- The published version has the bids of the one it was made from, and the
new bid after them. -/
theorem auction_bids : p.auction.bids = p.base.bids ++ p.newBid.toList := by
  cases p with
  | offer auction => exact (List.append_nil _).symm
  | bid base auction buyer amount now placed =>
    obtain ⟨_, _, _, rfl⟩ := Auction.placeBid_eq_ok.mp placed
    rfl

/-- The new bid is above every bid and the price of the version it is placed
on. -/
theorem highestBidAmount_lt {bid : Bid} (h : p.newBid = some bid) :
    p.base.highestBidAmount < bid.amount := by
  cases p with
  | offer auction => cases h
  | bid base auction buyer amount now placed =>
    obtain ⟨_, _, hlt, _⟩ := Auction.placeBid_eq_ok.mp placed
    obtain rfl := Option.some.inj h
    exact hlt

end Publication

/-! ## The commands -/

namespace Client

/-- `place_bid` on a copy of an auction, and publication when it is
accepted. -/
def placeBid (base : Auction) (buyer : Address) (amount : Nat) (now : Int) : Option Publication :=
  match placed : base.placeBid buyer amount now with
  | .ok auction => some (.bid base auction buyer amount now placed)
  | .error _ => none

/-- `CreateAuction`, with a duration of thirty seconds, and
`create_random_auction`, with the configured one. -/
def createAuction (crates : Crates) (node : Node) (object : String) (initialValue : Nat)
    (durationMs now : Int) : Publication :=
  .offer (Auction.newWithDuration crates object initialValue node.nodeInfo.id durationMs now)

/-- `Bid`, on the version that `find_auction_in_network` returned. -/
def bid (node : Node) (found : Auction) (amount : Nat) (now : Int) : Option Publication :=
  placeBid found node.nodeInfo.id amount now

/-- `bid_on_random_auction`, when the random choice is this auction and this
increment. A price beyond `u64` is not bid. -/
def bidOnRandomAuction (node : Node) (auction : Auction) (increment : Nat) (now : Int) :
    Option Publication :=
  if auction ∈ node.allAuctions ∧ auction.status = .Open ∧ auction.seller ≠ node.nodeInfo.id ∧
      1 ≤ increment ∧ increment < 25 ∧ auction.highestBidAmount + increment < 2 ^ 64 then
    placeBid auction node.nodeInfo.id (auction.highestBidAmount + increment) now
  else none

theorem placeBid_of_ok {base auction : Auction} {buyer : Address} {amount : Nat} {now : Int}
    (placed : base.placeBid buyer amount now = .ok auction) :
    placeBid base buyer amount now = some (.bid base auction buyer amount now placed) := by
  unfold placeBid
  split
  · rename_i accepted h
    obtain rfl : accepted = auction := Except.ok.inj (h.symm.trans placed)
    rfl
  · rename_i h
    rw [placed] at h
    cases h

theorem base_placeBid {base : Auction} {buyer : Address} {amount : Nat} {now : Int} {p : Publication}
    (h : placeBid base buyer amount now = some p) : p.base = base := by
  unfold placeBid at h
  split at h
  · obtain rfl := Option.some.inj h
    rfl
  · cases h

/-- The bid that is placed is the one the buyer asked for. -/
theorem newBid_placeBid {base : Auction} {buyer : Address} {amount : Nat} {now : Int}
    {p : Publication} (h : placeBid base buyer amount now = some p) :
    p.newBid = some { buyer, auction := base.key, amount } := by
  unfold placeBid at h
  split at h
  · obtain rfl := Option.some.inj h
    rfl
  · cases h

/-- A random bid starts from an auction of the node's own store. -/
theorem base_bidOnRandomAuction {node : Node} {auction : Auction} {increment : Nat} {now : Int}
    {p : Publication} (h : bidOnRandomAuction node auction increment now = some p) :
    p.base = auction ∧ auction ∈ node.auctions := by
  unfold bidOnRandomAuction at h
  split at h
  · rename_i hchosen
    exact ⟨base_placeBid h, hchosen.1⟩
  · cases h

end Client

end KademliaAuction

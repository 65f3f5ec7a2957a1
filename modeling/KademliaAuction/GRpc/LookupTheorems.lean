/-
KademliaAuction.GRpc.LookupTheorems — what a lookup finds, and what it
returns.

`held_found_iff` is about networks in which every endpoint fails, gives the
auction or names nodes (`Peers`). A query that fails ends the lookup, where
`iterative_find_node` would skip the node, so a dead endpoint hides the
holders behind it in the queue.

`only_asked_for_iff` is about all networks. The own store is asked by key,
but the auction in a response is returned whatever its key, and the `Bid`
command bids on it.
-/
import KademliaAuction.GRpc.Lookup
import KademliaAuction.LedgerTheorems

namespace KademliaAuction

open Blockchain Proto Routing Lib

namespace Lookup

/-! ## Dead peers -/

/-- What an endpoint does when it is asked for a key. -/
inductive PeerAnswer where
  | fails (error : String)
  | holds (auction : Auction)
  | knows (contacts : List NodeInfo)

namespace PeerAnswer

/-- The response of `find_value` that an answer is. -/
def Is (codec : Codec Proto.Auction) (response : Except String FindValueResponse) :
    PeerAnswer → Prop
  | .fails error => response = .error error
  | .holds auction => ∃ value, response = .ok { result := some (.value value) } ∧
      decodeValue codec value = .ok auction
  | .knows contacts =>
      response = .ok { result := some (.nodes (contacts.map NodeInfo.toInformation)) }

/-- The contacts of an endpoint that answers. -/
def contacts : PeerAnswer → List NodeInfo
  | .knows contacts => contacts
  | _ => []

/-- The endpoints of the contacts but the client itself. -/
def others (own : Address) (answer : PeerAnswer) : List Endpoint :=
  (answer.contacts.filter fun node => node.id ≠ own).map NodeInfo.endpoint

/-- An endpoint that fails or holds the auction ends a lookup. -/
def ends? : PeerAnswer → Option (Option Auction)
  | .fails _ => some none
  | .holds auction => some (some auction)
  | .knows _ => none

end PeerAnswer

/-- A network in which each endpoint fails, holds the auction of the key, or
knows contacts. -/
structure Peers (codec : Codec Proto.Auction)
    (findValue : String → Nat → Except String FindValueResponse) (key : Address) where
  answer : Endpoint → PeerAnswer
  answer_is : ∀ e, (answer e).Is codec (findValue e.1 e.2)
  key_eq : ∀ e auction, answer e = .holds auction → auction.key = key

variable {codec : Codec Proto.Auction}
  {findValue : String → Nat → Except String FindValueResponse} {key : Address}

namespace Peers

/-- The bootstrap node answers, and from it a holder of the auction can be
reached through the contacts of endpoints that answer. -/
def HolderInReach (peers : Peers codec findValue key) (node : Node) : Prop :=
  (∀ error, peers.answer (bootstrapEndpoint node) ≠ .fails error) ∧
    ∃ e auction, Search.Reached (fun e => (peers.answer e).contacts.map NodeInfo.endpoint)
      [bootstrapEndpoint node] e ∧ peers.answer e = .holds auction

/-- In breadth-first order from the bootstrap node, the first endpoint that
fails or holds the auction holds it. -/
def HolderFirst (peers : Peers codec findValue key) (node : Node) : Prop :=
  ∃ e auction, Search.FirstStop (fun e => (peers.answer e).others node.nodeInfo.id)
    (fun e => (peers.answer e).ends?) [bootstrapEndpoint node] e ∧ peers.answer e = .holds auction

variable (peers : Peers codec findValue key) (own : Address)

theorem referred_eq : referred findValue own = fun e => (peers.answer e).others own := by
  funext e
  have his := peers.answer_is e
  unfold referred PeerAnswer.others
  cases hanswer : peers.answer e with
  | fails error =>
    rw [hanswer] at his
    rw [show findValue e.1 e.2 = _ from his]
    rfl
  | holds auction =>
    rw [hanswer] at his
    obtain ⟨value, hvalue, _⟩ := his
    rw [hvalue]
    rfl
  | knows contacts =>
    rw [hanswer] at his
    rw [show findValue e.1 e.2 = _ from his]
    simp only [pushNodes_toInformation]
    rfl

theorem verdict_eq (e : Endpoint) :
    verdict codec findValue own e =
      match peers.answer e with
      | .fails _ => some (.error s!"Failed to query {e.1}:{e.2} for auction")
      | .holds auction => some (.ok auction)
      | .knows _ => none := by
  have his := peers.answer_is e
  unfold verdict
  cases hanswer : peers.answer e with
  | fails error =>
    rw [hanswer] at his
    rw [show findValue e.1 e.2 = _ from his]
  | holds held =>
    rw [hanswer] at his
    obtain ⟨value, hvalue, hdecode⟩ := his
    rw [hvalue]
    exact congrArg some hdecode
  | knows contacts =>
    rw [hanswer] at his
    rw [show findValue e.1 e.2 = _ from his]
    simp only [pushNodes_toInformation]

theorem verdict_eq_ok_iff {e : Endpoint} {auction : Auction} :
    verdict codec findValue own e = some (.ok auction) ↔ peers.answer e = .holds auction := by
  rw [peers.verdict_eq]
  cases peers.answer e <;> simp

theorem isSome_verdict (e : Endpoint) :
    (verdict codec findValue own e).isSome = (peers.answer e).ends?.isSome := by
  rw [peers.verdict_eq]
  cases peers.answer e <;> rfl

end Peers

end Lookup

open Lookup

/-- **When a dead peer hides no holder**: a lookup that should find the
auction does so if and only if the own store has it or a holder comes before
all endpoints that fail. -/
theorem held_found_iff {codec : Codec Proto.Auction}
    {findValue : String → Nat → Except String FindValueResponse} {key : Address}
    (peers : Peers codec findValue key) (node : Node) :
    (peers.HolderInReach node → ∃ fuel auction,
      findAuctionInNetwork codec findValue node key fuel = some (.ok (some auction)) ∧
        auction.key = key) ↔
    (peers.HolderInReach node → (node.findAuction key).isSome ∨ peers.HolderFirst node) := by
  refine imp_congr_right fun _ => ?_
  have hstops : ∀ e, StopsAt codec findValue node e ↔
      Search.FirstStop (fun e => (peers.answer e).others node.nodeInfo.id)
        (fun e => (peers.answer e).ends?) [bootstrapEndpoint node] e := by
    intro e
    rw [StopsAt, peers.referred_eq, Search.firstStop_congr (peers.isSome_verdict _)]
  rw [exists_comm]
  simp only [exists_and_right, findAuctionInNetwork_eq_ok_iff, hstops, peers.verdict_eq_ok_iff]
  constructor
  · intro ⟨auction, hfound, _⟩
    rcases hfound with hlocal | ⟨_, e, hfirst, hholds⟩
    · exact Or.inl (by rw [hlocal]; rfl)
    · exact Or.inr ⟨e, auction, hfirst, hholds⟩
  · intro hor
    cases hlocal : node.findAuction key with
    | some auction => exact ⟨auction, Or.inl rfl, (KeyedSet.find_eq_some.mp hlocal).2⟩
    | none =>
      rw [hlocal] at hor
      obtain ⟨e, auction, hfirst, hholds⟩ := hor.resolve_left (by simp)
      exact ⟨auction, Or.inr ⟨rfl, e, hfirst, hholds⟩, peers.key_eq e auction hholds⟩

/-! A client with an empty store, whose bootstrap node names a dead endpoint
before one that holds the auction. -/

/-- A peer of the bootstrap node. -/
def askingNode : Node :=
  Node.new (Address.ofU256 1) "127.0.0.1" 8001 Config.testConfig { auctions := .absent, ledger := .absent }

def deadPeer : NodeInfo := { id := Address.ofU256 2, ip := "127.0.0.1", port := 8002 }

def holder : NodeInfo := { id := Address.ofU256 3, ip := "127.0.0.1", port := 8003 }

def deadFirst : Endpoint → PeerAnswer
  | ("127.0.0.1", 8000) => .knows [deadPeer, holder]
  | ("127.0.0.1", 8003) => .holds soldWatch
  | _ => .fails "Failed to connect"

/-- The responses of a network whose one value is decoded to this auction. -/
def responses (answer : Endpoint → PeerAnswer) (ip : String) (port : Nat) :
    Except String FindValueResponse :=
  match answer (ip, port) with
  | .fails error => .error error
  | .holds _ => .ok { result := some (.value []) }
  | .knows contacts => .ok { result := some (.nodes (contacts.map NodeInfo.toInformation)) }

def deadFirstPeers : Peers (Codec.only soldWatch.toProto) (responses deadFirst) soldWatch.key where
  answer := deadFirst
  answer_is := by
    intro e
    unfold responses
    cases hanswer : deadFirst e with
    | fails error => rfl
    | knows contacts => rfl
    | holds auction =>
      refine ⟨[], rfl, ?_⟩
      have hwatch : auction = soldWatch := by
        unfold deadFirst at hanswer
        split at hanswer
        · cases hanswer
        · exact (PeerAnswer.holds.inj hanswer).symm
        · cases hanswer
      rw [hwatch]
      exact Auction.tryFrom_toProto (by decide)
  key_eq := by
    intro e auction hanswer
    unfold deadFirst at hanswer
    split at hanswer
    · cases hanswer
    · rw [← PeerAnswer.holds.inj hanswer]
    · cases hanswer

/-- The dead endpoint is asked first, and its error is the result. -/
theorem dead_peer_hides_holder :
    ¬ ∀ (codec : Codec Proto.Auction) (findValue : String → Nat → Except String FindValueResponse)
        (key : Address) (peers : Peers codec findValue key) (node : Node),
      peers.HolderInReach node → ∃ fuel auction,
        findAuctionInNetwork codec findValue node key fuel = some (.ok (some auction)) := by
  intro h
  have hreach : deadFirstPeers.HolderInReach askingNode := by
    refine ⟨(fun _ hfails => nomatch hfails), ("127.0.0.1", 8003), soldWatch, ?_, rfl⟩
    refine .step (a := ("127.0.0.1", 8000)) (.seed List.mem_cons_self trivial) ?_ trivial
    exact List.mem_cons_of_mem _ List.mem_cons_self
  obtain ⟨fuel, auction, hrun⟩ := h _ _ _ deadFirstPeers askingNode hreach
  have herror : Loop.Ends (round (Codec.only soldWatch.toProto) (responses deadFirst)
      askingNode.nodeInfo.id) (start askingNode soldWatch.key)
      (.error "Failed to query 127.0.0.1:8002 for auction") :=
    ⟨2, by decide +kernel⟩
  have hlocal : askingNode.findAuction soldWatch.key = none := by decide +kernel
  unfold findAuctionInNetwork at hrun
  rw [hlocal] at hrun
  cases herror.unique ⟨fuel, hrun⟩

/-! ## Other auctions -/

/-- **When a lookup returns only what was asked for**: the own store has the
auction, or the search does not stop at an endpoint that gives another one.
Then the `Bid` command publishes no other auction either. -/
theorem only_asked_for_iff (codec : Codec Proto.Auction)
    (findValue : String → Nat → Except String FindValueResponse) (node : Node) (key : Address) :
    ((∀ fuel auction,
        findAuctionInNetwork codec findValue node key fuel = some (.ok (some auction)) →
          auction.key = key) ∧
      ∀ amount now fuel p, bidCommand codec findValue node key amount now fuel = some p →
        p.base.key = key ∧ p.auction.key = key) ↔
    ((node.findAuction key).isSome ∨
      ∀ e auction, StopsAt codec findValue node e →
        verdict codec findValue node.nodeInfo.id e = some (.ok auction) → auction.key = key) := by
  -- The auction that `Bid` bids on is the one that the lookup returned.
  have hbids : (∀ fuel auction,
      findAuctionInNetwork codec findValue node key fuel = some (.ok (some auction)) →
        auction.key = key) →
      ∀ amount now fuel p, bidCommand codec findValue node key amount now fuel = some p →
        p.base.key = key ∧ p.auction.key = key := by
    intro hlookup amount now fuel p hbid
    unfold bidCommand at hbid
    split at hbid
    · rename_i auction hfound
      have hbase : p.base = auction := Client.base_placeBid hbid
      rw [Publication.auction_key, hbase]
      exact ⟨hlookup fuel auction hfound, hlookup fuel auction hfound⟩
    · cases hbid
  rw [and_iff_left_of_imp hbids]
  constructor
  · intro hlookup
    cases hlocal : node.findAuction key with
    | some auction => exact Or.inl rfl
    | none =>
      refine Or.inr fun e auction hstop hverdict => ?_
      obtain ⟨fuel, hrun⟩ :=
        findAuctionInNetwork_eq_ok_iff.mpr (Or.inr ⟨hlocal, e, hstop, hverdict⟩)
      exact hlookup fuel auction hrun
  · intro hor fuel auction hrun
    rcases findAuctionInNetwork_eq_ok_iff.mp ⟨fuel, hrun⟩ with hlocal | ⟨hlocal, e, hstop, hverdict⟩
    · exact (KeyedSet.find_eq_some.mp hlocal).2
    · rw [hlocal] at hor
      exact hor.resolve_left (by simp) e auction hstop hverdict

/-- An open auction that nobody asks for. -/
def otherAuction : Auction :=
  { soldWatch with status := .Open, bids := [], winner := none, winningBid := none, endsAt := 1000 }

/-- The bootstrap node answers with auction 7 when it is asked for auction 9. -/
theorem other_auction_returned :
    ¬ ∀ (codec : Codec Proto.Auction) (findValue : String → Nat → Except String FindValueResponse)
        (node : Node) (key : Address),
      (∀ fuel auction,
        findAuctionInNetwork codec findValue node key fuel = some (.ok (some auction)) →
          auction.key = key) ∧
      ∀ amount now fuel p, bidCommand codec findValue node key amount now fuel = some p →
        p.base.key = key ∧ p.auction.key = key := by
  intro h
  have hrun : findAuctionInNetwork (Codec.only otherAuction.toProto)
      (responses fun _ => .holds otherAuction) askingNode (Address.ofU256 9) 1 =
        some (.ok (some otherAuction)) := by
    decide +kernel
  exact absurd ((h _ _ _ _).1 1 otherAuction hrun) (by decide +kernel)

end KademliaAuction

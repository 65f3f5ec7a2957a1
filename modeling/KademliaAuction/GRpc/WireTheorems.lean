/-
KademliaAuction.GRpc.WireTheorems — what the auctions a node holds lose on
the wire.

The protobuf record has no optional fields: no winner is the empty string, no
winning bid is zero. An address is never written as the empty string, but
zero is a winning bid like any other, so an auction survives the two
conversions exactly when its winning bid is not zero (`roundTrips_iff`).

No rule of `place_bid` lets a bid of zero in, and the decoder never gives a
winning bid of zero. But the decoder takes the bids of the peer as they are,
and `close_if_expired` makes the highest of them the winning bid. So a held
auction is lost on the wire exactly after a closing pass over bids that are
all zero (`held_roundTrips_iff`).
-/
import KademliaAuction.GRpc.Automation
import KademliaAuction.GRpc.SettlementTheorems

namespace KademliaAuction

open Blockchain Proto Routing Lib

/-! ## One auction -/

namespace Auction

/-- Either conversion to protobuf and the one back give the auction. -/
structure RoundTrips (a : Auction) : Prop where
  owned : tryFrom a.toProto = .ok a
  borrowed : tryFrom a.refToProto = .ok a

theorem received_eq_self_iff {a : Auction} : a.received = a ↔ a.winningBid ≠ some 0 := by
  unfold received
  split
  · rename_i hzero
    refine ⟨fun heq => ?_, fun h => absurd hzero h⟩
    have hnone : none = a.winningBid := congrArg winningBid heq
    rw [hzero] at hnone
    cases hnone
  · rename_i hbid
    exact ⟨fun _ => hbid, fun _ => rfl⟩

/-- The sentinel of the winning bid is the only value that the wire loses. -/
theorem roundTrips_iff {a : Auction} : a.RoundTrips ↔ a.winningBid ≠ some 0 := by
  have hone : tryFrom a.toProto = .ok a ↔ a.winningBid ≠ some 0 := by
    rw [tryFrom_toProto_received, Except.ok.injEq, received_eq_self_iff]
  refine ⟨fun h => hone.mp h.owned, fun h => ⟨hone.mpr h, ?_⟩⟩
  rw [refToProto_eq]
  exact hone.mpr h

/-- What the decoder gives goes round. -/
theorem roundTrips_of_tryFrom {proto : Proto.Auction} {a : Auction} (h : tryFrom proto = .ok a) :
    a.RoundTrips :=
  roundTrips_iff.mpr (winningBid_of_tryFrom h)

theorem roundTrips_newWithDuration (crates : Crates) (object : String) (initialValue : Nat)
    (seller : Address) (durationMs now : Int) :
    (newWithDuration crates object initialValue seller durationMs now).RoundTrips := by
  rw [roundTrips_iff, newWithDuration_winningBid]
  exact nofun

theorem RoundTrips.placeBid {a a' : Auction} (h : a.RoundTrips) {buyer : Address} {amount : Nat}
    {now : Int} (placed : a.placeBid buyer amount now = .ok a') : a'.RoundTrips := by
  obtain ⟨_, _, _, rfl⟩ := placeBid_eq_ok.mp placed
  have hbid : a.winningBid ≠ some 0 := roundTrips_iff.mp h
  exact roundTrips_iff.mpr hbid

/-- The auction is open and due, and has bids, all of them zero. -/
structure ZeroWinDue (a : Auction) (now : Int) : Prop where
  opened : a.status = .Open
  due : a.endsAt ≤ now
  someBid : a.bids ≠ []
  zero : ∀ bid ∈ a.bids, bid.amount = 0

/-- Of an auction that goes round, closing makes one that does not exactly
when the highest bid is zero. -/
theorem RoundTrips.closeIfExpired_iff {a : Auction} (h : a.RoundTrips) (now : Int) :
    (a.closeIfExpired now).2.RoundTrips ↔ ¬ a.ZeroWinDue now := by
  rw [roundTrips_iff] at h ⊢
  rcases a.closeIfExpired_cases now with ⟨hkept, hwhy⟩ | ⟨hclosed, hopen, hdue⟩
  · rw [hkept]
    refine ⟨fun _ hzero => ?_, fun _ => h⟩
    rcases hwhy with hstatus | hearly
    · rw [hzero.opened] at hstatus
      cases hstatus
    · exact absurd hzero.due (by omega)
  · rw [hclosed]
    rcases a.close_winner_cases with ⟨bid, hbid, hmax, _, hwon⟩ | ⟨hnone, _, hwon⟩
    · rw [show (true, a.close).2.winningBid = some bid.amount from hwon]
      refine not_congr ⟨fun hzero => ⟨hopen, hdue, List.ne_nil_of_mem hbid, fun b hb => ?_⟩,
        fun hzero => congrArg some (hzero.zero bid hbid)⟩
      have hle : b.amount ≤ bid.amount := hmax b hb
      rw [Option.some.inj hzero] at hle
      omega
    · rw [show (true, a.close).2.winningBid = a.winningBid from hwon]
      exact ⟨fun _ hzero => hzero.someBid hnone, fun _ => h⟩

end Auction

/-! ## Runs of a node -/

/-- A command that makes an auction or a bid: `CreateAuction`, or `Bid` on the
auction with a key in the node's own store, or on one that another node
returned for it. -/
inductive LocalCommand where
  | create (object : String) (initialValue : Nat) (durationMs now : Int)
  | bidHeld (key : Address) (amount : Nat) (now : Int)
  | bidFound (proto : Proto.Auction) (amount : Nat) (now : Int)

/-- What the command publishes, if it does not fail before that. -/
def LocalCommand.publication? (crates : Crates) (node : Node) : LocalCommand → Option Publication
  | .create object initialValue durationMs now =>
      some (Client.createAuction crates node object initialValue durationMs now)
  | .bidHeld key amount now =>
      (node.findAuction key).bind fun found => Client.bid node found amount now
  | .bidFound proto amount now =>
      (Auction.tryFrom proto).toOption.bind fun found => Client.bid node found amount now

/-- A request or a closing pass, or a command on the same node. -/
inductive HoldAction where
  | server (action : ServerAction)
  | command (c : LocalCommand) (effects : Effects)

/-- `publish_auction` of what the command makes: the node stores it. -/
def Server.publish (libs : Libraries) (server : Server) (c : LocalCommand) (effects : Effects) :
    Server :=
  match c.publication? libs.toCrates server.host.node with
  | none => server
  | some p => { server with host := (server.host.storeAuction libs.toCrates effects p.auction).2 }

/-- A server together with the commands of the client that shares its node. -/
def holdSystem (libs : Libraries) (Init : Server → Prop) : System Server HoldAction where
  Init := Init
  next := fun server action =>
    match action with
    | .server action => (serverSystem libs Init).next server action
    | .command c effects => some (server.publish libs c effects)

/-- Every auction in the store goes round. -/
def HoldsRoundTrips (server : Server) : Prop := ∀ a ∈ server.host.node.auctions, a.RoundTrips

/-- The action is a closing pass that reaches its end and has an auction to
close whose bids are all zero. -/
def ClosesZeroBids (libs : Libraries) (server : Server) (action : HoldAction) : Prop :=
  ∃ now order effects, action = .server (.close now order effects) ∧
    order.Perm server.host.node.auctions.elems ∧
    WinsWritten libs.toCrates effects server.host.node server.host.node.ledger
      (justClosed now order) ∧
    ∃ a ∈ server.host.node.auctions, a.ZeroWinDue now

section Steps

variable {libs : Libraries} {Init : Server → Prop} {server server' : Server}

theorem holdSystem_close (libs : Libraries) (Init : Server → Prop) (now : Int) (effects : Effects)
    {order : List Auction} (horder : order.Perm server.host.node.auctions.elems) :
    (holdSystem libs Init).next server (.server (.close now order effects)) =
      some { server with
        host := (server.host.closeExpiredAuctions libs.toCrates effects now order).2 } := by
  show ((NodeAction.close now order effects).apply libs.toCrates server.host).map _ = _
  rw [NodeAction.apply_close.mpr ⟨horder, rfl⟩]
  rfl

/-- The auction of a STORE request is a decoded one. -/
theorem Server.tryFrom_of_keeps {rpc : Rpc} {request : AuthenticatedMessage} {a : Auction}
    (h : server.keeps libs rpc request = some a) : ∃ proto, Auction.tryFrom proto = .ok a := by
  cases rpc with
  | store =>
    simp only [keeps] at h
    split at h
    · cases h
    · obtain ⟨proto, _, hrest⟩ := Option.bind_eq_some_iff.mp h
      obtain ⟨decoded, hdecoded, hclose⟩ := Option.bind_eq_some_iff.mp hrest
      split at hclose
      · obtain rfl := Option.some.inj hclose
        exact ⟨proto, ok_of_toOption hdecoded⟩
      · cases hclose
  | _ => cases h

/-- What a command publishes goes round where the store does. -/
theorem LocalCommand.roundTrips {node : Node} (hheld : ∀ a ∈ node.auctions, a.RoundTrips)
    {c : LocalCommand} {p : Publication} (h : c.publication? libs.toCrates node = some p) :
    p.auction.RoundTrips := by
  have hbid : ∀ {found : Auction} {amount : Nat} {now : Int}, found.RoundTrips →
      Client.bid node found amount now = some p → p.auction.RoundTrips := by
    intro found amount now hfound hp
    obtain rfl : p.base = found := Client.base_placeBid hp
    cases p with
    | offer a => exact hfound
    | bid base a buyer amount now placed => exact hfound.placeBid placed
  cases c with
  | create object initialValue durationMs now =>
    obtain rfl := Option.some.inj h
    exact Auction.roundTrips_newWithDuration ..
  | bidHeld key amount now =>
    obtain ⟨found, hfound, hp⟩ := Option.bind_eq_some_iff.mp h
    exact hbid (hheld found (KeyedSet.find_eq_some.mp hfound).1) hp
  | bidFound proto amount now =>
    obtain ⟨found, hfound, hp⟩ := Option.bind_eq_some_iff.mp h
    exact hbid (Auction.roundTrips_of_tryFrom (ok_of_toOption hfound)) hp

theorem holdsRoundTrips_stored (hholds : HoldsRoundTrips server) {a : Auction}
    (ha : a.RoundTrips) (crates : Crates) (effects : Effects) :
    HoldsRoundTrips { server with host := (server.host.storeAuction crates effects a).2 } :=
  Host.forall_mem_storeAuction ha hholds

/-- A closing pass: what matters is whether it reaches its end, and what it
then closes. -/
theorem holdsRoundTrips_close (hholds : HoldsRoundTrips server) {now : Int} {order : List Auction}
    {effects : Effects} (horder : order.Perm server.host.node.auctions.elems) :
    HoldsRoundTrips { server with
        host := (server.host.closeExpiredAuctions libs.toCrates effects now order).2 } ↔
      ¬ (WinsWritten libs.toCrates effects server.host.node server.host.node.ledger
          (justClosed now order) ∧ ∃ a ∈ server.host.node.auctions, a.ZeroWinDue now) := by
  have hwins := recordDeclaredWins_ok_iff libs.toCrates effects server.host.node
    (justClosed now order) server.host rfl rfl
  have hend : ∀ after : Host, after.node.auctions = Host.closedStore now order →
      (HoldsRoundTrips { server with host := after } ↔
        ¬ ∃ a ∈ server.host.node.auctions, a.ZeroWinDue now) := by
    intro after hafter
    have hmem : ∀ a, a ∈ after.node.auctions ↔
        ∃ before ∈ server.host.node.auctions, a = (before.closeIfExpired now).2 := by
      intro a
      rw [hafter]
      exact Host.mem_collect_closeIfExpired horder
    constructor
    · intro hafter ⟨a, ha, hzero⟩
      have hclosed := hafter _ ((hmem _).mpr ⟨a, ha, rfl⟩)
      exact ((hholds a ha).closeIfExpired_iff now).mp hclosed hzero
    · intro hnone a ha
      obtain ⟨before, hbefore, rfl⟩ := (hmem a).mp ha
      exact ((hholds before hbefore).closeIfExpired_iff now).mpr fun hzero =>
        hnone ⟨before, hbefore, hzero⟩
  rcases server.host.closeExpiredAuctions_cases libs.toCrates effects now order with
    ⟨e, herror, h⟩ | ⟨hdone, hwritten⟩
  · obtain ⟨_, _, _, hstore, _, _⟩ :=
      Host.recordDeclaredWins_commits libs.toCrates effects (justClosed now order) server.host
    refine ⟨fun _ hcloses => ?_, fun _ a ha => hholds a ?_⟩
    · rw [hwins.mpr hcloses.1] at herror
      cases herror
    · rw [h] at ha
      exact hstore ▸ ha
  · simp only [hwins.mp hdone, true_and]
    rcases hwritten with ⟨_, h⟩ | ⟨_, e, h⟩
    · rw [h]
      exact hend _ rfl
    · rw [h]
      exact hend _ rfl

/-- One step. -/
theorem holdsRoundTrips_step {action : HoldAction} (hholds : HoldsRoundTrips server)
    (hnext : (holdSystem libs Init).next server action = some server') :
    HoldsRoundTrips server' ↔ ¬ ClosesZeroBids libs server action := by
  cases action with
  | command c effects =>
    obtain rfl := Option.some.inj hnext
    refine ⟨fun _ ⟨_, _, _, haction, _⟩ => (nomatch haction), fun _ => ?_⟩
    unfold Server.publish
    split
    · exact hholds
    · rename_i p hp
      exact holdsRoundTrips_stored hholds (LocalCommand.roundTrips hholds hp) _ _
  | server action =>
    cases action with
    | request r =>
      refine ⟨fun _ ⟨_, _, _, haction, _⟩ => (nomatch haction), fun _ => ?_⟩
      obtain rfl := Option.some.inj hnext
      refine held_request (Q := Auction.RoundTrips) (fun a hkeeps => ?_) hholds
      obtain ⟨proto, hproto⟩ := Server.tryFrom_of_keeps hkeeps
      exact Auction.roundTrips_of_tryFrom hproto
    | close now order effects =>
      obtain ⟨host, hhost, rfl⟩ := Option.map_eq_some_iff.mp hnext
      obtain ⟨horder, rfl⟩ := NodeAction.apply_close.mp hhost
      rw [holdsRoundTrips_close hholds horder]
      refine not_congr ⟨fun ⟨hwins, hzero⟩ => ⟨now, order, effects, rfl, horder, hwins, hzero⟩, ?_⟩
      intro ⟨_, _, _, haction, _, hwins, hzero⟩
      cases haction
      exact ⟨hwins, hzero⟩

end Steps

/-- **Lossless wire**: in a run of requests, closing passes and local commands
from an empty store, with any contents, times and write failures, every
auction held survives both conversions in every state exactly when no closing
pass that reaches its end closes an auction whose bids are all zero. -/
theorem held_roundTrips_iff (libs : Libraries) {server : Server}
    (hempty : server.host.node.auctions.elems = []) (actions : List HoldAction) :
    (holdSystem libs (· = server)).Throughout HoldsRoundTrips server actions ↔
      (holdSystem libs (· = server)).StepsMeet (fun s action => ¬ ClosesZeroBids libs s action)
        server actions := by
  refine System.throughout_iff_stepsMeet (I := fun _ => True) (fun _ _ _ _ _ => trivial) ?_
    (fun s a s' _ hholds hnext => holdsRoundTrips_step hholds hnext) actions server trivial ?_
  · intro s a hnone ⟨now, order, effects, haction, horder, _⟩
    obtain rfl := haction
    rw [holdSystem_close libs _ now effects horder] at hnone
    cases hnone
  · intro a hmem
    rw [KeyedSet.mem_def, hempty] at hmem
    cases hmem

/-! A watch that has ended with one bid, of zero, at a peer that does not check
bids. -/

def freeWatch : Auction :=
  { soldWatch with
    bids := [{ buyer := Address.ofU256 2, auction := Address.ofU256 7, amount := 0 }]
    status := .Open
    winner := none
    winningBid := none }

theorem freeWatch_stored :
    (sampleStored freeWatch).host.node.auctions.elems = [freeWatch] := by
  rw [sampleStored_host (by decide), (Host.storeAuction_commits _ _ _ freeWatch).1]
  rfl

/-- Before the watch ends, a pass leaves it as it is. -/
theorem held_roundTrips_iff_freeWatch :
    (holdSystem (storeLibraries freeWatch) (· = sampleServer)).Throughout HoldsRoundTrips
      sampleServer [.server (.request storeRequest),
        .server (.close 0 [freeWatch] (Effects.calm 5))] := by
  have hempty : sampleServer.host.node.auctions.elems = [] := rfl
  have hrequest : ¬ ClosesZeroBids (storeLibraries freeWatch) sampleServer
      (.server (.request storeRequest)) := fun ⟨_, _, _, haction, _⟩ => nomatch haction
  have hclose : ¬ ClosesZeroBids (storeLibraries freeWatch) (sampleStored freeWatch)
      (.server (.close 0 [freeWatch] (Effects.calm 5))) := by
    intro ⟨now, order, effects, haction, _, _, a, ha, hzero⟩
    obtain rfl : 0 = now := by cases haction; rfl
    rw [KeyedSet.mem_def, freeWatch_stored, List.mem_singleton] at ha
    exact absurd (ha ▸ hzero.due) (by decide)
  refine (held_roundTrips_iff (storeLibraries freeWatch) hempty _).mpr ⟨hrequest, ?_⟩
  intro stored hstored
  obtain rfl : sampleStored freeWatch = stored := Option.some.inj hstored
  exact ⟨hclose, fun _ _ => trivial⟩

/-- Closed after its end, it is sold for zero, and a peer that receives it
decodes a closed auction without a winning bid. -/
theorem zero_win_lost :
    ¬ ∀ (libs : Libraries) (server server' : Server), server.host.node.auctions.elems = [] →
      (holdSystem libs (· = server)).Reachable server' → HoldsRoundTrips server' := by
  intro hall
  have hstored : (holdSystem (storeLibraries freeWatch) (· = sampleServer)).Reachable
      (sampleStored freeWatch) :=
    .step (a := .server (.request storeRequest)) (.init rfl) trivial rfl
  have horder : [freeWatch].Perm (sampleStored freeWatch).host.node.auctions.elems := by
    rw [freeWatch_stored]
  have hclosed := holdSystem_close (storeLibraries freeWatch) (· = sampleServer) 1
    (Effects.calm 5) horder
  have hbefore : HoldsRoundTrips (sampleStored freeWatch) :=
    hall (storeLibraries freeWatch) sampleServer _ rfl hstored
  have hafter := hall (storeLibraries freeWatch) sampleServer _ rfl (hstored.step trivial hclosed)
  refine (holdsRoundTrips_step hbefore hclosed).mp hafter
    ⟨1, [freeWatch], Effects.calm 5, rfl, horder, ?_, freeWatch, ?_, ?_⟩
  · exact ⟨fun _ => rfl, trivial⟩
  · rw [KeyedSet.mem_def, freeWatch_stored]
    exact List.mem_singleton_self _
  · exact ⟨rfl, by decide, by decide, by decide⟩

end KademliaAuction

/-
KademliaAuction.GRpc.HeldAuctions — the auctions a server holds.

The rules of an auction are checked where it is built and changed, in
`new_with_duration`, `place_bid` and `close_if_expired`; an auction from the
network is decoded field by field, and the decoder checks that its addresses
and its status parse, no more. So a server's store is as good as what it is
sent. `Auction.WellFormed` collects what the rules give, `WellFormed.close`
says that closing keeps it, and `held_wellFormed_iff` that a server holds
well-formed auctions throughout exactly in the runs in which it is sent no
others.
-/
import KademliaAuction.AuctionTheorems
import KademliaAuction.GRpc.SettlementTheorems
import KademliaAuction.OfferKeys

namespace KademliaAuction

open Blockchain Proto Routing Lib

/-- The auction has the key of its own offer, its bids carry that key and
rise strictly from above the starting price, and its winner fields name the
last bid when it is closed and nobody before. -/
structure Auction.WellFormed (crates : Crates) (a : Auction) : Prop extends a.InOrder where
  key : a.key = a.generateKey crates

namespace Auction

variable {crates : Crates} {a a' : Auction}

theorem SameTerms.offer_eq (h : a.SameTerms a') : a'.offer = a.offer := by
  simp [offer, h.object, h.initialValue, h.seller]

/-- The terms fix the key. -/
theorem WellFormed.of_sameTerms (h : a.WellFormed crates) (hterms : a.SameTerms a')
    (horder : a'.InOrder) : a'.WellFormed crates :=
  ⟨horder, by rw [hterms.key, h.key, generateKey_congr hterms.offer_eq]⟩

/-- What a node builds and changes itself is well formed. -/
theorem wellFormed_after (crates : Crates) (object : String) (initialValue : Nat)
    (seller : Address) (durationMs now : Int) (calls : List AuctionCall) :
    ((newWithDuration crates object initialValue seller durationMs now).after calls).WellFormed
      crates := by
  have hnew := inOrder_newWithDuration crates object initialValue seller durationMs now
  obtain ⟨horder, hterms⟩ := hnew.after calls
  exact WellFormed.of_sameTerms ⟨hnew, newWithDuration_key ..⟩ hterms horder

theorem WellFormed.close (h : a.WellFormed crates) (hopen : a.status = .Open) :
    a.close.WellFormed crates :=
  h.of_sameTerms a.sameTerms_close (h.toInOrder.close hopen)

end Auction

/-! ## Runs of a server -/

/-- Every auction in the store is well formed. -/
def HoldsWellFormed (libs : Libraries) (server : Server) : Prop :=
  ∀ auction ∈ server.host.node.auctions, auction.WellFormed libs.toCrates

/-- If the action is a STORE request that the server keeps, the auction it
carries is well formed. -/
def WellFormedStores (libs : Libraries) (server : Server) (action : ServerAction) : Prop :=
  ∀ r, action = .request r → ∀ auction, server.keeps libs r.rpc r.message = some auction →
    auction.WellFormed libs.toCrates

/-- One step: the server goes on holding well-formed auctions when it keeps
one, and only then. -/
theorem holdsWellFormed_step {libs : Libraries} {Init : Server → Prop} {server server' : Server}
    {action : ServerAction} (hholds : HoldsWellFormed libs server)
    (hnext : (serverSystem libs Init).next server action = some server') :
    HoldsWellFormed libs server' ↔ WellFormedStores libs server action := by
  constructor
  · rintro hholds' r rfl auction hkeeps
    obtain rfl := Option.some.inj hnext
    refine hholds' auction ?_
    rw [Server.handle_host_of_keeps libs hkeeps r.inputs]
    exact Host.mem_storeAuction_self
  · intro hstores
    exact held_step (fun _ h hopen => h.close hopen) hstores hnext hholds

/-- **Held auctions**: in a run of requests and closing passes from an empty
store, with any contents, times and write failures, every auction held is
well formed in every state exactly when every auction kept from a STORE
request is. -/
theorem held_wellFormed_iff (libs : Libraries) {server : Server}
    (hempty : server.host.node.auctions.elems = []) (actions : List ServerAction) :
    (serverSystem libs (· = server)).Throughout (HoldsWellFormed libs) server actions ↔
      (serverSystem libs (· = server)).StepsMeet (WellFormedStores libs) server actions := by
  refine System.throughout_iff_stepsMeet (I := fun _ => True) (fun _ _ _ _ _ => trivial) ?_
    (fun s a s' _ hholds hnext => holdsWellFormed_step hholds hnext) actions server trivial ?_
  · rintro s a hnone r rfl
    cases hnone
  · intro auction hmem
    rw [KeyedSet.mem_def, hempty] at hmem
    cases hmem

/-- A new auction of a camera. -/
def newCamera : Auction :=
  Auction.newWithDuration lookupLibraries.toCrates "camera" 20 (Address.ofU256 1) 1000 0

theorem held_wellFormed_iff_newCamera :
    (serverSystem (storeLibraries newCamera) (· = sampleServer)).Throughout
      (HoldsWellFormed (storeLibraries newCamera)) sampleServer [.request storeRequest] := by
  have hbid : newCamera.winningBid ≠ some 0 := by simp [newCamera]
  refine (held_wellFormed_iff (storeLibraries newCamera) rfl [.request storeRequest]).mpr
    ⟨?_, fun _ _ => trivial⟩
  intro r hr auction hkeeps
  obtain rfl := ServerAction.request.inj hr
  obtain rfl := Option.some.inj ((keeps_storeRequest hbid).symm.trans hkeeps)
  exact Auction.wellFormed_after lookupLibraries.toCrates "camera" 20 (Address.ofU256 1) 1000 0 []

/-- A STORE of an open auction without bids that names a winner is kept as
it is. -/
theorem ill_formed_held :
    ¬ ∀ (libs : Libraries) (server server' : Server),
      server.host.node.auctions.elems = [] →
      (serverSystem libs (· = server)).Reachable server' → HoldsWellFormed libs server' := by
  intro hclaim
  have hbid : phantomWatch.winningBid ≠ some 0 := by decide
  have hreach : (serverSystem (storeLibraries phantomWatch) (· = sampleServer)).Reachable
      (sampleStored phantomWatch) :=
    .step (a := .request storeRequest) (.init rfl) trivial rfl
  have hmem : phantomWatch ∈ (sampleStored phantomWatch).host.node.auctions := by
    rw [sampleStored_host hbid]
    exact Host.mem_storeAuction_self
  have hwell := hclaim (storeLibraries phantomWatch) sampleServer _ rfl hreach phantomWatch hmem
  have hwinner : phantomWatch.winner = none := hwell.winner
  exact absurd hwinner (by decide)

end KademliaAuction

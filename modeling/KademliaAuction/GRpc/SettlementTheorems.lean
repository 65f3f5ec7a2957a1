/-
KademliaAuction.GRpc.SettlementTheorems — what the ledger of a server says
about the auctions it settles.

A block comes from a closing pass, which takes the winner from the bids of an
expired auction, or from a STORE request, which takes it from the winner
fields of the decoded auction. The decoder checks that these fields parse;
that they fit the bids, the status and the deadline it leaves to the peer.
So a transaction is as good as the auction that was stored:
`appended_wins` says what holds of every appended transaction, and what of
those in runs whose stored auctions are fair (`Auction.FairAt`).
`unfair_store_settled` is a STORE request that settles an open auction nobody
bid for.
-/
import KademliaAuction.GRpc.JoinTheorems

namespace KademliaAuction

open Blockchain Proto Routing Lib

/-! ## Runs -/

/-- A request, or a closing pass. -/
inductive ServerAction where
  | request (r : ServerRequest)
  | close (now : Int) (order : List Auction) (effects : Effects)

/-- A server that handles requests and runs closing passes. -/
def serverSystem (libs : Libraries) (Init : Server → Prop) : System Server ServerAction where
  Init := Init
  next := fun server action =>
    match action with
    | .request r => some (server.handle libs r.rpc r.inputs r.message)
    | .close now order effects =>
        ((NodeAction.close now order effects).apply libs.toCrates server.host).map fun host =>
          { server with host }

/-- The time of a step: that of the closing pass, or the clock reading for the
block that a request may append. -/
def ServerAction.time (server : Server) : ServerAction → Int
  | .request r => r.inputs.effects.clock server.host.node.ledger.length
  | .close now _ _ => now

/-- The transactions that a step appends. -/
def appendedTo (server server' : Server) : List Transaction :=
  transactions (server'.host.node.ledger.drop server.host.node.ledger.length)

/-! ## Fair wins -/

/-- The transaction names the auction and pays its seller the given win. -/
structure Pays (auction : Auction) (tx : Transaction) : Prop where
  kind : tx.kind = .auctionWon auction.key
  recipient : tx.recipient = auction.seller
  win : auction.declaredWin = some (tx.sender, tx.amount)

/-- The auction has a bid by this buyer for this amount, and no higher one. -/
def Auction.HasHighestBid (auction : Auction) (buyer : Address) (amount : Nat) : Prop :=
  ∃ bid ∈ auction.bids, bid.buyer = buyer ∧ bid.amount = amount ∧
    ∀ b ∈ auction.bids, b.amount ≤ amount

/-- The transaction settles an auction that is over at time `t` for the
highest of its bids, which is above the starting price. -/
structure FairWin (auction : Auction) (tx : Transaction) (t : Int) : Prop where
  pays : Pays auction tx
  closed : auction.status = .Closed
  ended : auction.endsAt ≤ t
  highest : auction.HasHighestBid tx.sender tx.amount
  aboveStart : auction.initialValue < tx.amount

/-- An auction that may be stored at time `t`: its bids are above the starting
price, and a win it declares is that of its highest bid, after its end. -/
structure Auction.FairAt (auction : Auction) (t : Int) : Prop where
  bids : ∀ bid ∈ auction.bids, auction.initialValue < bid.amount
  win : ∀ buyer amount, auction.declaredWin = some (buyer, amount) →
    auction.status = .Closed ∧ auction.endsAt ≤ t ∧ auction.HasHighestBid buyer amount

/-- A request keeps only a fair auction. -/
def FairStores (libs : Libraries) (server : Server) (action : ServerAction) : Prop :=
  ∀ r, action = .request r → ∀ auction, server.keeps libs r.rpc r.message = some auction →
    auction.FairAt (action.time server)

/-- What a fair auction in the store is still known to be later on. -/
structure Auction.FairHeld (auction : Auction) : Prop where
  bids : ∀ bid ∈ auction.bids, auction.initialValue < bid.amount
  opened : auction.status = .Open → auction.declaredWin = none

theorem Auction.FairAt.held {auction : Auction} {t : Int} (h : auction.FairAt t) :
    auction.FairHeld where
  bids := h.bids
  opened := by
    intro hopen
    cases hwin : auction.declaredWin with
    | none => rfl
    | some win =>
      have hclosed := (h.win win.1 win.2 hwin).1
      rw [hopen] at hclosed
      cases hclosed

theorem Auction.FairHeld.close {auction : Auction} (h : auction.FairHeld) : auction.close.FairHeld where
  bids := by
    rw [close_bids, close_initialValue]
    exact h.bids
  opened := fun hopen => by
    rw [close_status] at hopen
    cases hopen

/-- The win that closing declares is the highest bid, or what an auction
without bids declared already. -/
theorem Auction.declaredWin_close {auction : Auction} {buyer : Address} {amount : Nat}
    (h : auction.close.declaredWin = some (buyer, amount)) :
    auction.HasHighestBid buyer amount ∨
      (auction.bids = [] ∧ auction.declaredWin = some (buyer, amount)) := by
  rcases auction.close_winner_cases with ⟨bid, hbid, hmax, hwinner, hwon⟩ | ⟨hnone, hwinner, hwon⟩
  · unfold declaredWin at h
    rw [hwinner, hwon] at h
    obtain ⟨rfl, rfl⟩ : bid.buyer = buyer ∧ bid.amount = amount := by simpa using h
    exact Or.inl ⟨bid, hbid, rfl, rfl, hmax⟩
  · unfold declaredWin at h ⊢
    rw [hwinner, hwon] at h
    exact Or.inr ⟨hnone, h⟩

/-! ## Where transactions come from -/

/-- The transaction was appended by a closing pass, for an open auction of the
store that was due. -/
def FromClosing (server : Server) (action : ServerAction) (tx : Transaction) : Prop :=
  ∃ now order effects, action = .close now order effects ∧
    ∃ auction ∈ server.host.node.auctions, auction.status = .Open ∧ auction.endsAt ≤ now ∧
      Pays auction.close tx ∧
      (auction.HasHighestBid tx.sender tx.amount ∨
        (auction.bids = [] ∧ auction.declaredWin = some (tx.sender, tx.amount)))

/-- The transaction was appended by a STORE request, for the auction it
carries. -/
def FromStore (libs : Libraries) (server server' : Server) (action : ServerAction)
    (tx : Transaction) : Prop :=
  ∃ r auction, action = .request r ∧ server.keeps libs r.rpc r.message = some auction ∧
    auction ∈ server'.host.node.auctions ∧ Pays auction tx

theorem mem_appended_of_commits {crates : Crates} {effects : Effects} {host host' : Host}
    {wins : List Auction} (h : Commits crates effects host host' wins) {tx : Transaction}
    (htx : tx ∈ transactions (host'.node.ledger.drop host.node.ledger.length)) :
    ∃ auction ∈ wins, Pays auction tx := by
  obtain ⟨appended, happended, hall⟩ :=
    exists_appended crates effects host.node host.node.ledger wins
  rw [h.ledger, happended, List.drop_left] at htx
  obtain ⟨auction, hmem, winner, winningBid, hwin, _, rfl⟩ := hall tx htx
  exact ⟨auction, hmem, rfl, rfl, hwin⟩

/-- One step: every appended transaction comes from a closing pass or a STORE
request. -/
theorem from_of_mem_appended {libs : Libraries} {Init : Server → Prop} {server server' : Server}
    {action : ServerAction} (hnext : (serverSystem libs Init).next server action = some server')
    {tx : Transaction} (htx : tx ∈ appendedTo server server') :
    FromClosing server action tx ∨ FromStore libs server server' action tx := by
  cases action with
  | close now order effects =>
    obtain ⟨host, hhost, rfl⟩ := Option.map_eq_some_iff.mp hnext
    obtain ⟨horder, rfl⟩ := NodeAction.apply_close.mp hhost
    obtain ⟨settled, hpre, hcommits, _⟩ :=
      server.host.closeExpiredAuctions_commits libs.toCrates effects now order
    obtain ⟨closed, hclosed, hpays⟩ := mem_appended_of_commits hcommits htx
    obtain ⟨auction, hmem, hopen, hdue, rfl⟩ := mem_justClosed.mp (hpre.subset hclosed)
    exact Or.inl ⟨now, order, effects, rfl, auction, horder.mem_iff.mp hmem, hopen, hdue, hpays,
      Auction.declaredWin_close hpays.win⟩
  | request r =>
    obtain rfl := Option.some.inj hnext
    have hsame : (server.handle libs r.rpc r.inputs r.message).host.node.ledger =
        server.host.node.ledger → False := by
      intro hledger
      unfold appendedTo at htx
      rw [hledger, List.drop_length] at htx
      cases htx
    rcases server.handle_host libs r.rpc r.inputs r.message with
      ⟨auction, hkeeps, _, hhost⟩ | ⟨sender, _, _, hhost⟩ | ⟨_, _, hhost⟩
    · unfold appendedTo at htx
      rw [hhost] at htx
      obtain ⟨_, ⟨settled, hpre, hcommits, _⟩, _⟩ :=
        server.host.storeAuction_commits libs.toCrates r.inputs.effects auction
      obtain ⟨kept, hkept, hpays⟩ := mem_appended_of_commits hcommits htx
      rw [List.mem_singleton.mp (hpre.subset hkept)] at hpays
      refine Or.inr ⟨r, auction, rfl, hkeeps, ?_, hpays⟩
      rw [hhost]
      exact Host.mem_storeAuction_self
    · exact (hsame (by rw [hhost]; rfl)).elim
    · exact (hsame (by rw [hhost])).elim

/-- What the auction has that a request makes the server keep, if any, every
auction of the store goes on having. -/
theorem held_request {libs : Libraries} {server : Server} {r : ServerRequest} {Q : Auction → Prop}
    (hkept : ∀ auction, server.keeps libs r.rpc r.message = some auction → Q auction)
    (hheld : ∀ auction ∈ server.host.node.auctions, Q auction) :
    ∀ auction ∈ (server.handle libs r.rpc r.inputs r.message).host.node.auctions, Q auction := by
  rcases server.handle_host libs r.rpc r.inputs r.message with
    ⟨kept, hkeeps, _, hhost⟩ | ⟨sender, _, _, hhost⟩ | ⟨_, _, hhost⟩
  · rw [hhost]
    exact Host.forall_mem_storeAuction (hkept kept hkeeps) hheld
  · rw [hhost]
    exact hheld
  · rw [hhost]
    exact hheld

/-- What closing keeps, and what the auctions have that a request makes the
server keep, every auction of the store has after a step. -/
theorem held_step {libs : Libraries} {Init : Server → Prop} {server server' : Server}
    {action : ServerAction} {Q : Auction → Prop}
    (hclose : ∀ auction, Q auction → auction.status = .Open → Q auction.close)
    (hkept : ∀ r, action = .request r → ∀ auction,
      server.keeps libs r.rpc r.message = some auction → Q auction)
    (hnext : (serverSystem libs Init).next server action = some server')
    (hheld : ∀ auction ∈ server.host.node.auctions, Q auction) :
    ∀ auction ∈ server'.host.node.auctions, Q auction := by
  cases action with
  | close now order effects =>
    obtain ⟨host, hhost, rfl⟩ := Option.map_eq_some_iff.mp hnext
    obtain ⟨horder, rfl⟩ := NodeAction.apply_close.mp hhost
    obtain ⟨_, _, _, hstore, _⟩ :=
      server.host.closeExpiredAuctions_commits libs.toCrates effects now order
    intro auction hmem
    rcases hstore with hsame | ⟨_, hclosed⟩
    · rw [hsame] at hmem
      exact hheld auction hmem
    · rw [hclosed, Host.mem_collect_closeIfExpired horder] at hmem
      obtain ⟨before, hbefore, rfl⟩ := hmem
      rcases before.closeIfExpired_cases now with ⟨heq, _⟩ | ⟨heq, hopen, _⟩
      · rw [heq]
        exact hheld before hbefore
      · rw [heq]
        exact hclose before (hheld before hbefore) hopen
  | request r =>
    obtain rfl := Option.some.inj hnext
    exact held_request (hkept r rfl) hheld

/-- Fair stores keep the store fair. -/
theorem fairHeld_step {libs : Libraries} {Init : Server → Prop} {server server' : Server}
    {action : ServerAction} (hheld : ∀ auction ∈ server.host.node.auctions, auction.FairHeld)
    (hfair : FairStores libs server action)
    (hnext : (serverSystem libs Init).next server action = some server') :
    ∀ auction ∈ server'.host.node.auctions, auction.FairHeld :=
  held_step (fun _ h _ => h.close) (fun r hr auction hkeeps => (hfair r hr auction hkeeps).held)
    hnext hheld

/-- A proof-of-work server whose store is empty. -/
def EmptyStore (server : Server) : Prop :=
  ConsensusMode.fromConfig server.host.node.config = .ProofOfWork ∧
    server.host.node.auctions.elems = []

/-- In a run whose stored auctions are fair, the store is. -/
theorem fairHeld_of_reachable {libs : Libraries} {server : Server}
    (h : (serverSystem libs EmptyStore).ReachableUnder (FairStores libs) server) :
    ∀ auction ∈ server.host.node.auctions, auction.FairHeld := by
  refine h.invariant (I := fun s => ∀ auction ∈ s.host.node.auctions, auction.FairHeld)
    ?_ fun s a s' hi hok hstep => fairHeld_step hi hok hstep
  intro s ⟨_, hempty⟩ auction hmem
  rw [KeyedSet.mem_def, hempty] at hmem
  cases hmem

/-- Closing a due auction that is fairly held is a fair win. -/
theorem Auction.FairHeld.fairWin {auction : Auction} (h : auction.FairHeld)
    (hopen : auction.status = .Open) {tx : Transaction} {t : Int} (hdue : auction.endsAt ≤ t)
    (hpays : Pays auction.close tx) (hbid : auction.HasHighestBid tx.sender tx.amount ∨
      (auction.bids = [] ∧ auction.declaredWin = some (tx.sender, tx.amount))) :
    FairWin auction.close tx t := by
  have hhighest : auction.HasHighestBid tx.sender tx.amount := by
    rcases hbid with hbid | ⟨_, hwin⟩
    · exact hbid
    · rw [h.opened hopen] at hwin
      cases hwin
  obtain ⟨bid, hmem, _, hamount, _⟩ := id hhighest
  refine ⟨hpays, auction.close_status, ?_, ?_, ?_⟩
  · rw [Auction.close_endsAt]
    exact hdue
  · unfold Auction.HasHighestBid
    rw [Auction.close_bids]
    exact hhighest
  · rw [Auction.close_initialValue, ← hamount]
    exact h.bids bid hmem

/-- Storing a fair auction is a fair win. -/
theorem Auction.FairAt.fairWin {auction : Auction} {t : Int} (h : auction.FairAt t)
    {tx : Transaction} (hpays : Pays auction tx) : FairWin auction tx t := by
  obtain ⟨hclosed, hended, hhighest⟩ := h.win _ _ hpays.win
  obtain ⟨bid, hmem, _, hamount, _⟩ := id hhighest
  refine ⟨hpays, hclosed, hended, hhighest, ?_⟩
  rw [← hamount]
  exact h.bids bid hmem

/-- **Settlement integrity**: in every run, a transaction that a step appends
is the highest bid of a due auction that the closing pass just closed (or, of
one without bids, the win it was stored with), or it is the win that the
auction of a STORE request declares; and in a run whose stored auctions are
fair it is a fair win of the auction that was closed or stored. -/
theorem appended_wins (libs : Libraries) {server server' : Server} {action : ServerAction}
    (hnext : (serverSystem libs EmptyStore).next server action = some server') {tx : Transaction}
    (htx : tx ∈ appendedTo server server') :
    ((serverSystem libs EmptyStore).Reachable server →
      FromClosing server action tx ∨ FromStore libs server server' action tx) ∧
    ((serverSystem libs EmptyStore).ReachableUnder (FairStores libs) server →
      FairStores libs server action →
      ∃ auction, (auction ∈ server'.host.node.auctions ∨
          ∃ before ∈ server.host.node.auctions, auction = before.close) ∧
        FairWin auction tx (action.time server)) := by
  have hfrom := from_of_mem_appended hnext htx
  refine ⟨fun _ => hfrom, fun hreach hfair => ?_⟩
  rcases hfrom with ⟨now, order, effects, rfl, auction, hmem, hopen, hdue, hpays, hbid⟩ |
    ⟨r, auction, rfl, hkeeps, hmem, hpays⟩
  · have hheld : auction.FairHeld := fairHeld_of_reachable hreach auction hmem
    exact ⟨auction.close, Or.inr ⟨auction, hmem, rfl⟩, hheld.fairWin hopen hdue hpays hbid⟩
  · exact ⟨auction, Or.inl hmem, (hfair r rfl auction hkeeps).fairWin hpays⟩

/-! A new server is sent an auction. -/

/-- Libraries in which a STORE request carries this auction. -/
def storeLibraries (auction : Auction) : Libraries :=
  sampleLibraries { targetId := "" } { auction := some auction.toProto }

def storeRequest : ServerRequest :=
  { lookup with rpc := .store, inputs := { sampleInputs with effects := Effects.calm 5 } }

theorem keeps_storeRequest {auction : Auction} (h : auction.winningBid ≠ some 0) :
    sampleServer.keeps (storeLibraries auction) .store storeRequest.message = some auction := by
  have hopen : Server.openRequest (storeLibraries auction)
      (storeLibraries auction).prost.storeRequest storeRequest.message =
        .ok ({ auction := some auction.toProto }, stranger.toInformation, stranger) :=
    Server.openRequest_eq_ok.mpr ⟨rfl, rfl, rfl, rfl, rfl⟩
  have hclosest : sampleServer.host.node.getClosestNodesToKey auction.key =
      [sampleServer.host.node.nodeInfo.toInformation] :=
    congrArg (List.map NodeInfo.toInformation) (RoutingTable.getKClosestNodes_new
      sampleServer.host.node.nodeInfo Config.testConfig auction.key)
  unfold Server.keeps
  simp only [hopen, Option.bind_eq_bind, Option.bind_some, Auction.tryFrom_toProto h,
    Except.toOption, hclosest, List.any_cons, NodeInfo.toInformation, decide_true, Bool.true_or,
    if_true]

/-- The server after the request. -/
def sampleStored (auction : Auction) : Server :=
  sampleServer.handle (storeLibraries auction) .store storeRequest.inputs storeRequest.message

theorem sampleStored_host {auction : Auction} (h : auction.winningBid ≠ some 0) :
    (sampleStored auction).host =
      (sampleServer.host.storeAuction (storeLibraries auction).toCrates (Effects.calm 5)
        auction).2 :=
  Server.handle_host_of_keeps _ (keeps_storeRequest h) storeRequest.inputs

theorem appended_wins_soldWatch :
    (FromClosing sampleServer (.request storeRequest)
        (Transaction.auctionWon soldWatch.key (Address.ofU256 1) (Address.ofU256 2) 125) ∨
      FromStore (storeLibraries soldWatch) sampleServer (sampleStored soldWatch)
        (.request storeRequest)
        (Transaction.auctionWon soldWatch.key (Address.ofU256 1) (Address.ofU256 2) 125)) ∧
    ∃ auction, (auction ∈ (sampleStored soldWatch).host.node.auctions ∨
        ∃ before ∈ sampleServer.host.node.auctions, auction = before.close) ∧
      FairWin auction (Transaction.auctionWon soldWatch.key (Address.ofU256 1) (Address.ofU256 2) 125)
        ((ServerAction.request storeRequest).time sampleServer) := by
  have hbid : soldWatch.winningBid ≠ some 0 := by decide
  have htx : Transaction.auctionWon soldWatch.key (Address.ofU256 1) (Address.ofU256 2) 125 ∈
      appendedTo sampleServer (sampleStored soldWatch) := by
    unfold appendedTo
    rw [sampleStored_host hbid]
    decide +kernel
  have hinit : (serverSystem (storeLibraries soldWatch) EmptyStore).Init sampleServer := ⟨rfl, rfl⟩
  have hfair : FairStores (storeLibraries soldWatch) sampleServer (.request storeRequest) := by
    intro r hr auction hkeeps
    obtain rfl := ServerAction.request.inj hr
    rw [show storeRequest.rpc = .store from rfl, keeps_storeRequest hbid] at hkeeps
    obtain rfl := Option.some.inj hkeeps
    refine ⟨by decide, fun buyer amount hwin => ?_⟩
    obtain ⟨rfl, rfl⟩ : Address.ofU256 2 = buyer ∧ 125 = amount := by
      simpa [Auction.declaredWin, soldWatch] using hwin
    exact ⟨rfl, by decide, ⟨Address.ofU256 2, Address.ofU256 7, 125⟩, by decide +kernel, rfl, rfl,
      by decide⟩
  have hnext : (serverSystem (storeLibraries soldWatch) EmptyStore).next sampleServer
      (.request storeRequest) = some (sampleStored soldWatch) := rfl
  have hwins := appended_wins (storeLibraries soldWatch) hnext htx
  exact ⟨hwins.1 (.init hinit), hwins.2 (.init hinit) hfair⟩

/-- An open auction without bids that names a winner. -/
def phantomWatch : Auction :=
  { soldWatch with
    bids := []
    status := .Open
    endsAt := 1000
    winner := some (Address.ofU256 9)
    winningBid := some 999 }

/-- **A STORE settles what it declares**: the request makes the server append
a win of 999 for an auction that is open until time 1000 and has no bid. -/
theorem unfair_store_settled :
    ¬ ∀ (server server' : Server) (action : ServerAction) (tx : Transaction),
      (serverSystem (storeLibraries phantomWatch) EmptyStore).Reachable server →
      (serverSystem (storeLibraries phantomWatch) EmptyStore).next server action = some server' →
      tx ∈ appendedTo server server' →
      ∃ auction ∈ server'.host.node.auctions, FairWin auction tx (action.time server) := by
  intro hall
  have hbid : phantomWatch.winningBid ≠ some 0 := by decide
  have htx : Transaction.auctionWon phantomWatch.key (Address.ofU256 1) (Address.ofU256 9) 999 ∈
      appendedTo sampleServer (sampleStored phantomWatch) := by
    unfold appendedTo
    rw [sampleStored_host hbid]
    decide +kernel
  obtain ⟨auction, hmem, hfair⟩ := hall sampleServer (sampleStored phantomWatch)
    (.request storeRequest) _ (.init ⟨rfl, rfl⟩) rfl htx
  rw [sampleStored_host hbid, Host.mem_storeAuction] at hmem
  rcases hmem with rfl | ⟨hold, _⟩
  · cases hfair.closed
  · cases hold

end KademliaAuction

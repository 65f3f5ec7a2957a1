/-
KademliaAuction.WinnerAgreement — one node and the peers that store auctions
on it: do store and ledger name the same winner?

The ledger is written once for each auction key, by whoever declares a win
first. The store is written by every STORE: `store_auction` replaces the
auction of the key and compares nothing. So the two agree only as long as the
peers do not bring back an older version of an auction that is already
settled. `Market` is the node with the versions its peers have read, an
honest peer stores a new auction or a version it read with edits of its own,
and `winners_agree` is the agreement for the runs in which a settled key is
only stored closed and with the bids the node already has.
`stale_store_reopens` is a run in which it is not.
-/
import KademliaAuction.LedgerTheorems

namespace KademliaAuction

open Blockchain Routing Storage Lib

/-! ## Honest peers -/

/-- What an honest peer does to the version it read: `place_bid` while the
auction is open by its clock, or `close_if_expired`. -/
inductive PeerEdit where
  | bid (buyer : Address) (amount : Nat) (now : Int)
  | close (now : Int)
  deriving DecidableEq

/-- The version after an edit, none when the bid is refused. -/
def PeerEdit.apply (auction : Auction) : PeerEdit → Option Auction
  | .bid buyer amount now => (auction.placeBid buyer amount now).toOption
  | .close now => some (auction.closeIfExpired now).2

/-- The version after several edits. -/
def Auction.edited (auction : Auction) : List PeerEdit → Option Auction
  | [] => some auction
  | edit :: edits => (edit.apply auction).bind fun auction => auction.edited edits

/-- What the three operations on auctions guarantee of the winner fields:
unset while the auction is open, and the highest bid's once it is closed. -/
structure Auction.Honest (auction : Auction) : Prop where
  opened : auction.status = .Open → auction.winner = none ∧ auction.winningBid = none
  closed : auction.status = .Closed →
    auction.winner = (maxByAmount auction.bids).map Bid.buyer ∧
      auction.winningBid = (maxByAmount auction.bids).map Bid.amount

namespace Auction

theorem honest_newWithDuration (crates : Crates) (object : String) (initialValue : Nat)
    (seller : Address) (durationMs now : Int) :
    (newWithDuration crates object initialValue seller durationMs now).Honest where
  opened := fun _ => ⟨rfl, rfl⟩
  closed := fun h => by
    rw [newWithDuration_status] at h
    cases h

theorem Honest.close {a : Auction} (h : a.Honest) (hopen : a.status = .Open) : a.close.Honest where
  opened := fun hclosed => by
    rw [close_status] at hclosed
    cases hclosed
  closed := by
    intro _
    obtain ⟨hwinner, hbid⟩ := h.opened hopen
    rw [close_bids]
    unfold Auction.close
    cases hmax : maxByAmount a.bids with
    | some bid => exact ⟨rfl, rfl⟩
    | none => exact ⟨hwinner, hbid⟩

theorem Honest.closeIfExpired {a : Auction} (h : a.Honest) (now : Int) :
    (a.closeIfExpired now).2.Honest := by
  rcases a.closeIfExpired_cases now with ⟨heq, _⟩ | ⟨heq, hopen, _⟩
  · rw [heq]
    exact h
  · rw [heq]
    exact h.close hopen

/-- A win that an honest auction declares is its highest bid, and the auction
is closed. -/
theorem Honest.declaredWin {a : Auction} (h : a.Honest) {winner : Address} {winningBid : Nat}
    (hwin : a.declaredWin = some (winner, winningBid)) :
    a.status = .Closed ∧ a.winner = some winner ∧ a.winningBid = some winningBid := by
  unfold Auction.declaredWin at hwin
  split at hwin
  · rename_i w b hw hb
    obtain ⟨rfl, rfl⟩ : w = winner ∧ b = winningBid := by simpa using hwin
    refine ⟨?_, hw, hb⟩
    cases hstatus : a.status with
    | Closed => rfl
    | Open =>
      have hnone := (h.opened hstatus).1
      rw [hw] at hnone
      cases hnone
  · cases hwin

theorem edit_apply {a a' : Auction} {edit : PeerEdit} (h : edit.apply a = some a') :
    a'.key = a.key ∧ (a.Honest → a'.Honest) := by
  cases edit with
  | bid buyer amount now =>
    have hok : a.placeBid buyer amount now = .ok a' := ok_of_toOption h
    obtain ⟨hopen, _, _, rfl⟩ := placeBid_eq_ok.mp hok
    refine ⟨rfl, fun hhonest => ⟨hhonest.opened, fun hclosed => ?_⟩⟩
    rw [hopen] at hclosed
    cases hclosed
  | close now =>
    obtain rfl : (a.closeIfExpired now).2 = a' := Option.some.inj h
    exact ⟨a.closeIfExpired_key now, fun hhonest => hhonest.closeIfExpired now⟩

/-- Edits keep the key and the guarantee. -/
theorem edited_spec : ∀ {edits : List PeerEdit} {a a' : Auction}, a.edited edits = some a' →
    a'.key = a.key ∧ (a.Honest → a'.Honest) := by
  intro edits a a' h
  induction edits generalizing a with
  | nil =>
    obtain rfl : a = a' := Option.some.inj h
    exact ⟨rfl, id⟩
  | cons edit edits ih =>
    obtain ⟨b, hb, hrest⟩ := Option.bind_eq_some_iff.mp h
    obtain ⟨hkey, hhonest⟩ := edit_apply hb
    obtain ⟨hkey', hhonest'⟩ := ih hrest
    exact ⟨hkey'.trans hkey, fun h => hhonest' (hhonest h)⟩

end Auction

/-! ## The market -/

/-- A node, and the versions that peers have read from its store so far. -/
structure Market where
  host : Host
  versions : List Auction

/-- A closing pass of the node; a peer reading a key; a peer storing a new
auction, or a version read earlier with edits. -/
inductive MarketAction where
  | close (now : Int) (order : List Auction) (effects : Effects)
  | read (key : Address)
  | create (object : String) (initialValue : Nat) (seller : Address) (durationMs now : Int)
      (effects : Effects)
  | publish (version : Nat) (edits : List PeerEdit) (effects : Effects)

namespace Market

/-- The auction a peer stores with an action, if it stores one. -/
def storedBy (crates : Crates) (m : Market) : MarketAction → Option Auction
  | .close .. => none
  | .read _ => none
  | .create object initialValue seller durationMs now _ =>
      some (Auction.newWithDuration crates object initialValue seller durationMs now)
  | .publish version edits _ => m.versions[version]?.bind fun auction => auction.edited edits

/-- One step of the market. -/
def step (crates : Crates) (m : Market) (action : MarketAction) : Option Market :=
  match action with
  | .close now order effects =>
      ((NodeAction.close now order effects).apply crates m.host).map fun host => { m with host }
  | .read key =>
      (m.host.node.findAuction key).map fun auction =>
        { m with versions := m.versions ++ [auction] }
  | .create _ _ _ _ _ effects =>
      (m.storedBy crates action).map fun auction =>
        { m with host := (m.host.storeAuction crates effects auction).2 }
  | .publish _ _ effects =>
      (m.storedBy crates action).map fun auction =>
        { m with host := (m.host.storeAuction crates effects auction).2 }

end Market

/-- All writes of the action succeed. -/
def MarketAction.AllWritten : MarketAction → Prop
  | .close _ _ effects => effects.AllWritten
  | .read _ => True
  | .create _ _ _ _ _ effects => effects.AllWritten
  | .publish _ _ effects => effects.AllWritten

/-- A market that starts with a proof-of-work node without auctions and
blocks, and without versions. -/
def market (crates : Crates) : System Market MarketAction where
  Init := fun m => EmptyPow m.host ∧ m.versions = []
  next := Market.step crates

/-- Where a peer stores an auction whose key is settled, it stores it closed
and with the bids of the node's version. -/
def Market.SettledOnlyRepeated (crates : Crates) (m : Market) (action : MarketAction) : Prop :=
  ∀ auction, m.storedBy crates action = some auction →
    recordsWin m.host.node.ledger auction.key = true →
      auction.status = .Closed ∧
        ∀ current, m.host.node.findAuction auction.key = some current → auction.bids = current.bids

/-! ## Agreement -/

/-- The ledger has an `AuctionWon` transaction for the key, from this sender
for this amount. -/
def Won (ledger : List Block) (key winner : Address) (amount : Nat) : Prop :=
  ∃ tx ∈ transactions ledger, tx.kind = .auctionWon key ∧ tx.sender = winner ∧ tx.amount = amount

/-- The auction is closed with the winner that the ledger has for it. -/
def Agrees (ledger : List Block) (auction : Auction) : Prop :=
  ∀ winner amount, Won ledger auction.key winner amount →
    auction.status = .Closed ∧ auction.winner = some winner ∧ auction.winningBid = some amount

theorem won_iff_recordsWin {ledger : List Block} {key : Address} :
    (∃ winner amount, Won ledger key winner amount) ↔ recordsWin ledger key = true := by
  rw [recordsWin_eq_true]
  simp only [Won, transactions, wonKeys, List.mem_flatMap, List.mem_filterMap]
  constructor
  · rintro ⟨winner, amount, tx, ⟨block, hblock, htx⟩, hkind, _⟩
    exact ⟨block, hblock, tx, htx, by simp [Transaction.wonKey?, hkind]⟩
  · rintro ⟨block, hblock, tx, htx, hkey⟩
    refine ⟨tx.sender, tx.amount, tx, ⟨block, hblock, htx⟩, ?_, rfl, rfl⟩
    unfold Transaction.wonKey? at hkey
    split at hkey
    · rename_i won hkind
      rw [hkind, Option.some.inj hkey]
    · cases hkey

section Settlements

variable {crates : Crates} {effects : Effects} {node : Node} {ledger : List Block}
  {wins : List Auction}

/-- A winner in the ledger was there before or is declared by one of the
auctions just settled, whose key had no winner. -/
theorem won_settleAll {key winner : Address} {amount : Nat}
    (h : Won (settleAll crates effects node ledger wins) key winner amount) :
    Won ledger key winner amount ∨
      (recordsWin ledger key = false ∧
        ∃ auction ∈ wins, auction.key = key ∧ auction.declaredWin = some (winner, amount)) := by
  obtain ⟨tx, htx, hkind, hsender, hamount⟩ := h
  rcases mem_transactions_settleAll htx with hold | ⟨auction, hmem, w, b, hwin, hnew, rfl⟩
  · exact Or.inl ⟨tx, hold, hkind, hsender, hamount⟩
  · obtain rfl : auction.key = key := by simpa [Transaction.auctionWon] using hkind
    obtain rfl : w = winner := hsender
    obtain rfl : b = amount := hamount
    exact Or.inr ⟨hnew, auction, hmem, rfl, hwin⟩

end Settlements

/-- What honest peers and the condition on settled keys maintain. -/
structure MarketInvariant (m : Market) : Prop where
  pow : ConsensusMode.fromConfig m.host.node.config = .ProofOfWork
  honest : ∀ auction ∈ m.host.node.auctions, auction.Honest
  versions : ∀ auction ∈ m.versions, auction.Honest
  agrees : ∀ auction ∈ m.host.node.auctions, Agrees m.host.node.ledger auction
  held : ∀ key, recordsWin m.host.node.ledger key = true →
    ∃ auction ∈ m.host.node.auctions, auction.key = key

namespace MarketInvariant

variable {crates : Crates} {m : Market}

/-- Every auction a peer stores is honest. -/
theorem honest_storedBy (h : MarketInvariant m) {action : MarketAction} {auction : Auction}
    (hstored : m.storedBy crates action = some auction) : auction.Honest := by
  cases action with
  | close now order effects => cases hstored
  | read key => cases hstored
  | create object initialValue seller durationMs now effects =>
    obtain rfl := Option.some.inj hstored
    exact Auction.honest_newWithDuration ..
  | publish version edits effects =>
    obtain ⟨base, hbase, hedited⟩ := Option.bind_eq_some_iff.mp hstored
    exact (Auction.edited_spec hedited).2 (h.versions base (List.mem_of_getElem? hbase))

/-- A closed honest auction with the bids of one that agrees with the ledger
agrees with it too. -/
theorem agrees_of_bids_eq {ledger : List Block} {auction current : Auction} (ha : auction.Honest)
    (hc : current.Honest) (hkey : current.key = auction.key) (hclosed : auction.status = .Closed)
    (hbids : auction.bids = current.bids) (hcurrent : Agrees ledger current) :
    Agrees ledger auction := by
  intro winner amount hwon
  rw [← hkey] at hwon
  obtain ⟨hstatus, hwinner, hamount⟩ := hcurrent winner amount hwon
  obtain ⟨hw, hb⟩ := hc.closed hstatus
  obtain ⟨hw', hb'⟩ := ha.closed hclosed
  rw [hbids] at hw' hb'
  exact ⟨hclosed, hw'.trans (hw.symm.trans hwinner), hb'.trans (hb.symm.trans hamount)⟩

/-- A peer stores an auction. -/
theorem store (h : MarketInvariant m) {effects : Effects} (hwritten : effects.AllWritten)
    {auction : Auction} (hhonest : auction.Honest)
    (hcond : recordsWin m.host.node.ledger auction.key = true → auction.status = .Closed ∧
      ∀ current, m.host.node.findAuction auction.key = some current → auction.bids = current.bids) :
    MarketInvariant { m with host := (m.host.storeAuction crates effects auction).2 } := by
  obtain ⟨_, ⟨settled, _, hcommits, hall⟩, _⟩ := m.host.storeAuction_commits crates effects auction
  obtain rfl := hall hwritten.1
  have hold : ∀ {a : Auction}, a.key ≠ auction.key → Agrees m.host.node.ledger a →
      Agrees (m.host.storeAuction crates effects auction).2.node.ledger a := by
    intro a hne hagrees winner amount hwon
    rw [hcommits.ledger] at hwon
    rcases won_settleAll hwon with hbefore | ⟨_, b, hb, hkey, _⟩
    · exact hagrees winner amount hbefore
    · rw [List.mem_singleton.mp hb] at hkey
      exact absurd hkey.symm hne
  have hnew : Agrees (m.host.storeAuction crates effects auction).2.node.ledger auction := by
    intro winner amount hwon
    rw [hcommits.ledger] at hwon
    rcases won_settleAll hwon with hbefore | ⟨_, b, hb, _, hwin⟩
    · have hrec := won_iff_recordsWin.mp ⟨winner, amount, hbefore⟩
      obtain ⟨current, hmem, hkey⟩ := h.held _ hrec
      obtain ⟨hclosed, hbids⟩ := hcond hrec
      exact agrees_of_bids_eq hhonest (h.honest current hmem) hkey hclosed
        (hbids current (KeyedSet.find_eq_some.mpr ⟨hmem, hkey⟩)) (h.agrees current hmem)
        winner amount hbefore
    · rw [List.mem_singleton.mp hb] at hwin
      exact hhonest.declaredWin hwin
  refine ⟨by rw [← h.pow, ← hcommits.config], ?_, h.versions, ?_, ?_⟩
  · exact Host.forall_mem_storeAuction hhonest h.honest
  · intro a ha
    rcases Host.mem_storeAuction.mp ha with rfl | ⟨ha, hne⟩
    · exact hnew
    · exact hold hne (h.agrees a ha)
  · intro key hrec
    by_cases hkey : auction.key = key
    · exact ⟨auction, Host.mem_storeAuction_self, hkey⟩
    · obtain ⟨winner, amount, hwon⟩ := won_iff_recordsWin.mpr hrec
      rw [hcommits.ledger] at hwon
      rcases won_settleAll hwon with hbefore | ⟨_, b, hb, hbkey, _⟩
      · obtain ⟨a, ha, hak⟩ := h.held key (won_iff_recordsWin.mp ⟨_, _, hbefore⟩)
        exact ⟨a, Host.mem_storeAuction.mpr (Or.inr ⟨ha, fun hc => hkey (hc.symm.trans hak)⟩), hak⟩
      · rw [List.mem_singleton.mp hb] at hbkey
        exact absurd hbkey hkey

/-- The node runs a closing pass. -/
theorem close (h : MarketInvariant m) {now : Int} {order : List Auction} {effects : Effects}
    (hwritten : effects.AllWritten) (horder : order.Perm m.host.node.auctions.elems) :
    MarketInvariant
      { m with host := (m.host.closeExpiredAuctions crates effects now order).2 } := by
  obtain ⟨settled, _, hcommits, _, hall⟩ :=
    m.host.closeExpiredAuctions_commits crates effects now order
  obtain ⟨rfl, _, hauctions⟩ := hall hwritten
  have hmem : ∀ {a : Auction}, a ∈ order ↔ a ∈ m.host.node.auctions := horder.mem_iff
  -- One auction for each key: what closed under a key is the auction of that key.
  have hsame : ∀ {a b : Auction}, a ∈ m.host.node.auctions → b ∈ justClosed now order →
      b.key = a.key → b = a.close ∧ a.status = .Open ∧ a.endsAt ≤ now := by
    intro a b ha hb hkey
    obtain ⟨c, hc, hopen, hdue, rfl⟩ := mem_justClosed.mp hb
    rw [Auction.close_key] at hkey
    obtain rfl := KeyedSet.eq_of_key_eq (hmem.mp hc) ha hkey
    exact ⟨rfl, hopen, hdue⟩
  refine ⟨by rw [← h.pow, ← hcommits.config], ?_, h.versions, ?_, ?_⟩
  · intro a ha
    rw [hauctions, Host.mem_collect_closeIfExpired horder] at ha
    obtain ⟨before, hbefore, rfl⟩ := ha
    exact (h.honest before hbefore).closeIfExpired now
  · intro a ha winner amount hwon
    rw [hauctions, Host.mem_collect_closeIfExpired horder] at ha
    obtain ⟨before, hbefore, rfl⟩ := ha
    rw [hcommits.ledger, Auction.closeIfExpired_key] at hwon
    rcases before.closeIfExpired_cases now with ⟨heq, hwhy⟩ | ⟨heq, hopen, _⟩
    · rw [heq]
      rcases won_settleAll hwon with hold | ⟨_, b, hb, hkey, _⟩
      · exact h.agrees before hbefore winner amount hold
      · obtain ⟨_, hopen, hdue⟩ := hsame hbefore hb hkey
        rcases hwhy with hclosed | hearly
        · rw [hopen] at hclosed
          cases hclosed
        · omega
    · rw [heq]
      rcases won_settleAll hwon with hold | ⟨_, b, hb, hkey, hwin⟩
      · have hclosed := (h.agrees before hbefore winner amount hold).1
        rw [hopen] at hclosed
        cases hclosed
      · rw [(hsame hbefore hb hkey).1] at hwin
        exact ((h.honest before hbefore).close hopen).declaredWin hwin
  · intro key hrec
    obtain ⟨winner, amount, hwon⟩ := won_iff_recordsWin.mpr hrec
    rw [hcommits.ledger] at hwon
    have hbefore : ∃ a ∈ m.host.node.auctions, a.key = key := by
      rcases won_settleAll hwon with hold | ⟨_, b, hb, hkey, _⟩
      · exact h.held key (won_iff_recordsWin.mp ⟨_, _, hold⟩)
      · obtain ⟨a, ha, _, _, rfl⟩ := mem_justClosed.mp hb
        exact ⟨a, hmem.mp ha, (a.close_key).symm.trans hkey⟩
    obtain ⟨a, ha, hkey⟩ := hbefore
    refine ⟨(a.closeIfExpired now).2, ?_, (a.closeIfExpired_key now).trans hkey⟩
    rw [hauctions, Host.mem_collect_closeIfExpired horder]
    exact ⟨a, ha, rfl⟩

theorem step (h : MarketInvariant m) {m' : Market} {action : MarketAction}
    (hwritten : action.AllWritten) (hcond : m.SettledOnlyRepeated crates action)
    (hstep : m.step crates action = some m') : MarketInvariant m' := by
  cases action with
  | close now order effects =>
    obtain ⟨host, hhost, rfl⟩ := Option.map_eq_some_iff.mp hstep
    obtain ⟨horder, rfl⟩ := NodeAction.apply_close.mp hhost
    exact h.close hwritten horder
  | read key =>
    obtain ⟨auction, hfound, rfl⟩ := Option.map_eq_some_iff.mp hstep
    refine ⟨h.pow, h.honest, fun a ha => ?_, h.agrees, h.held⟩
    rcases List.mem_append.mp ha with ha | ha
    · exact h.versions a ha
    · rw [List.mem_singleton.mp ha]
      exact h.honest auction (KeyedSet.find_eq_some.mp hfound).1
  | create object initialValue seller durationMs now effects =>
    unfold Market.step at hstep
    obtain ⟨auction, hstored, rfl⟩ := Option.map_eq_some_iff.mp hstep
    exact h.store hwritten (h.honest_storedBy hstored) (hcond auction hstored)
  | publish version edits effects =>
    obtain ⟨auction, hstored, rfl⟩ := Option.map_eq_some_iff.mp hstep
    exact h.store hwritten (h.honest_storedBy hstored) (hcond auction hstored)

end MarketInvariant

/-- **Store and ledger agree about winners** in every run whose writes succeed
and in which a settled key is stored only closed and with the bids it has. -/
theorem winners_agree (crates : Crates) {m : Market}
    (h : (market crates).ReachableUnder
      (fun m action => action.AllWritten ∧ m.SettledOnlyRepeated crates action) m)
    (key winner : Address) (amount : Nat) (hwon : Won m.host.node.ledger key winner amount)
    (auction : Auction) (hmem : auction ∈ m.host.node.auctions) (hkey : auction.key = key) :
    auction.status = .Closed ∧ auction.winner = some winner ∧ auction.winningBid = some amount := by
  have hinv : MarketInvariant m := by
    refine h.invariant ?_ fun m action m' hinv hok hnext => hinv.step hok.1 hok.2 hnext
    intro m ⟨⟨hpow, hstore, hledger⟩, hversions⟩
    refine ⟨hpow, ?_, ?_, ?_, ?_⟩
    · intro a ha
      rw [KeyedSet.mem_def, hstore] at ha
      cases ha
    · intro a ha
      rw [hversions] at ha
      cases ha
    · intro a ha
      rw [KeyedSet.mem_def, hstore] at ha
      cases ha
    · intro key hrec
      rw [hledger] at hrec
      cases hrec
  rw [← hkey] at hwon
  exact hinv.agrees auction hmem winner amount hwon

/-! A watch is offered, read by two peers, bid for and closed; then the first
peer stores it again, or the second peer's bid arrives. -/

def offeredWatch : Auction :=
  Auction.newWithDuration sampleCrates "watch" 100 (Address.ofU256 3) 10 0

def watchBid : Bid where
  buyer := Address.ofU256 2
  auction := offeredWatch.key
  amount := 125

/-- The first peer's version. -/
def bidWatch : Auction := { offeredWatch with bids := [watchBid] }

def marketStart : Market := { host := sampleHost, versions := [] }

def marketOffered : Market where
  host := (sampleHost.storeAuction sampleCrates (Effects.calm 0) offeredWatch).2
  versions := []

def marketRead : Market := { marketOffered with versions := [offeredWatch] }

def marketBid : Market where
  host := (marketOffered.host.storeAuction sampleCrates (Effects.calm 1) bidWatch).2
  versions := [offeredWatch]

def marketClosed : Market where
  host := (marketBid.host.closeExpiredAuctions sampleCrates (Effects.calm 10) 10 [bidWatch]).2
  versions := [offeredWatch]

def offerWatch : MarketAction := .create "watch" 100 (Address.ofU256 3) 10 0 (Effects.calm 0)

def readWatch : MarketAction := .read offeredWatch.key

def publishBid : MarketAction := .publish 0 [.bid (Address.ofU256 2) 125 1] (Effects.calm 1)

def closeWatch : MarketAction := .close 10 [bidWatch] (Effects.calm 10)

def publishStale : MarketAction := .publish 0 [.bid (Address.ofU256 4) 110 2] (Effects.calm 11)

theorem step_offered : marketStart.step sampleCrates offerWatch = some marketOffered := rfl

theorem step_read : marketOffered.step sampleCrates readWatch = some marketRead := by
  have hfound : marketOffered.host.node.findAuction offeredWatch.key = some offeredWatch := by
    decide +kernel
  exact congrArg (Option.map fun auction => { marketOffered with
    versions := marketOffered.versions ++ [auction] }) hfound

theorem step_bid : marketRead.step sampleCrates publishBid = some marketBid := by
  have hstored : marketRead.storedBy sampleCrates publishBid = some bidWatch := by decide +kernel
  exact congrArg (Option.map fun auction => { marketRead with
    host := (marketRead.host.storeAuction sampleCrates (Effects.calm 1) auction).2 }) hstored

theorem step_closed : marketBid.step sampleCrates closeWatch = some marketClosed := by
  have horder : [bidWatch].Perm marketBid.host.node.auctions.elems := by decide +kernel
  exact congrArg (Option.map fun host => { marketBid with host })
    (NodeAction.apply_close.mpr ⟨horder, rfl⟩)

/-- The first peer closes its version too, and stores it once more. -/
def publishAgain : MarketAction :=
  .publish 0 [.bid (Address.ofU256 2) 125 1, .close 10] (Effects.calm 11)

def marketRepeated : Market where
  host := (marketClosed.host.storeAuction sampleCrates (Effects.calm 11) bidWatch.close).2
  versions := [offeredWatch]

theorem storedBy_publishAgain :
    marketClosed.storedBy sampleCrates publishAgain = some bidWatch.close := by
  decide +kernel

theorem step_repeated : marketClosed.step sampleCrates publishAgain = some marketRepeated := by
  have hstored := storedBy_publishAgain
  exact congrArg (Option.map fun auction => { marketClosed with
    host := (marketClosed.host.storeAuction sampleCrates (Effects.calm 11) auction).2 }) hstored

/-- The key is settled by then; what is stored is closed and has the bid. -/
theorem settledOnlyRepeated_publishAgain :
    recordsWin marketClosed.host.node.ledger bidWatch.close.key = true ∧
      marketClosed.SettledOnlyRepeated sampleCrates publishAgain := by
  refine ⟨by decide +kernel, fun auction hstored _ => ?_⟩
  rw [storedBy_publishAgain] at hstored
  obtain rfl := Option.some.inj hstored
  refine ⟨by decide +kernel, fun current hfound => ?_⟩
  have hclosed : marketClosed.host.node.findAuction bidWatch.close.key = some bidWatch.close := by
    decide +kernel
  rw [hclosed] at hfound
  rw [← Option.some.inj hfound]

theorem winners_agree_marketRepeated :
    bidWatch.close ∈ marketRepeated.host.node.auctions ∧ bidWatch.close.status = .Closed ∧
      bidWatch.close.winner = some (Address.ofU256 2) ∧ bidWatch.close.winningBid = some 125 := by
  have hunsettled : ∀ {m : Market} {action : MarketAction}, m.host.node.ledger = [] →
      m.SettledOnlyRepeated sampleCrates action := by
    intro m action hempty auction _ hrec
    rw [hempty] at hrec
    cases hrec
  have hinit : (market sampleCrates).ReachableUnder (fun m action => action.AllWritten ∧
      m.SettledOnlyRepeated sampleCrates action) marketStart := .init ⟨⟨rfl, rfl, rfl⟩, rfl⟩
  have hoffered := hinit.step (a := offerWatch) ⟨Effects.allWritten_calm 0, hunsettled rfl⟩
    step_offered
  have hread := hoffered.step (a := readWatch) ⟨trivial, hunsettled (by decide +kernel)⟩ step_read
  have hbid := hread.step (a := publishBid)
    ⟨Effects.allWritten_calm 1, hunsettled (by decide +kernel)⟩ step_bid
  have hclosed := hbid.step (a := closeWatch)
    ⟨Effects.allWritten_calm 10, hunsettled (by decide +kernel)⟩ step_closed
  have hrepeated := hclosed.step (a := publishAgain)
    ⟨Effects.allWritten_calm 11, settledOnlyRepeated_publishAgain.2⟩ step_repeated
  have hwon : Won marketRepeated.host.node.ledger offeredWatch.key (Address.ofU256 2) 125 :=
    ⟨Transaction.auctionWon offeredWatch.key (Address.ofU256 3) (Address.ofU256 2) 125,
      by decide +kernel, rfl, rfl, rfl⟩
  have hmem : bidWatch.close ∈ marketRepeated.host.node.auctions := Host.mem_storeAuction_self
  exact ⟨hmem, winners_agree sampleCrates hrepeated offeredWatch.key (Address.ofU256 2) 125 hwon
    bidWatch.close hmem (by decide +kernel)⟩

/-- The second peer's version. -/
def staleWatch : Auction :=
  { offeredWatch with bids := [⟨Address.ofU256 4, offeredWatch.key, 110⟩] }

def marketReopened : Market where
  host := (marketClosed.host.storeAuction sampleCrates (Effects.calm 11) staleWatch).2
  versions := [offeredWatch]

theorem step_stale : marketClosed.step sampleCrates publishStale = some marketReopened := by
  have hstored : marketClosed.storedBy sampleCrates publishStale = some staleWatch := by
    decide +kernel
  exact congrArg (Option.map fun auction => { marketClosed with
    host := (marketClosed.host.storeAuction sampleCrates (Effects.calm 11) auction).2 }) hstored

/-- **A stale version reopens a settled auction**: the second peer read the
watch before the first bid and bids 110 on that version; stored after the
closing pass, it replaces the closed auction while the ledger keeps the
winner. -/
theorem stale_store_reopens :
    ¬ ∀ m, (market sampleCrates).ReachableUnder (fun _ action => action.AllWritten) m →
      ∀ key winner amount, Won m.host.node.ledger key winner amount →
        ∀ auction ∈ m.host.node.auctions, auction.key = key →
          auction.status = .Closed ∧ auction.winner = some winner ∧
            auction.winningBid = some amount := by
  intro hall
  have hinit : (market sampleCrates).ReachableUnder (fun _ action => action.AllWritten)
      marketStart := .init ⟨⟨rfl, rfl, rfl⟩, rfl⟩
  have hoffered := hinit.step (a := offerWatch) (Effects.allWritten_calm 0) step_offered
  have hread := hoffered.step (a := readWatch) trivial step_read
  have hbid := hread.step (a := publishBid) (Effects.allWritten_calm 1) step_bid
  have hclosed := hbid.step (a := closeWatch) (Effects.allWritten_calm 10) step_closed
  have hreopened := hclosed.step (a := publishStale) (Effects.allWritten_calm 11) step_stale
  have hwon : Won marketReopened.host.node.ledger offeredWatch.key (Address.ofU256 2) 125 :=
    ⟨Transaction.auctionWon offeredWatch.key (Address.ofU256 3) (Address.ofU256 2) 125,
      by decide +kernel, rfl, rfl, rfl⟩
  have hmem : staleWatch ∈ marketReopened.host.node.auctions := by
    rw [KeyedSet.mem_def]
    decide +kernel
  have hopen := (hall _ hreopened _ _ _ hwon staleWatch hmem rfl).1
  cases hopen

end KademliaAuction

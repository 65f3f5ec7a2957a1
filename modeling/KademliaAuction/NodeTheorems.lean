/-
KademliaAuction.NodeTheorems — what a call of `store_auction` or
`close_expired_auctions` can do.

Both calls change the ledger only by taking up the declared wins of some
auctions, one after the other: `settleAll` is that as a function of ledgers,
and `Commits` relates the hosts before and after. `storeAuction_commits` and
`closeExpiredAuctions_commits` say which auctions these are and what becomes
of the store, whichever writes fail. Every invariant of ledger and store is
derived from these two, and from what `settle` does to one ledger
(`settle_cases`).
-/
import KademliaAuction.Node

namespace KademliaAuction

open Blockchain Routing Storage Lib

variable (crates : Crates) (effects : Effects)

/-! ## Settling one auction, and several -/

/-- The ledger after the declared win of an auction has been taken up. -/
def settle (node : Node) (ledger : List Block) (auction : Auction) : List Block :=
  match auction.declaredWin with
  | none => ledger
  | some (winner, winningBid) =>
      if recordsWin ledger auction.key = true ∨
          hasReputationToCommit node.config ledger node.nodeInfo.id = false then ledger
      else
        ledger ++ [winBlock crates effects ledger auction.key auction.seller winner winningBid]

/-- The node would commit a block for the auction: it declares a win that the
ledger does not record, and the node has the reputation. -/
def Unsettled (node : Node) (ledger : List Block) (auction : Auction) : Prop :=
  (∃ win, auction.declaredWin = some win) ∧ recordsWin ledger auction.key = false ∧
    hasReputationToCommit node.config ledger node.nodeInfo.id = true

/-- The ledger after the declared wins of several auctions, in order. -/
def settleAll (node : Node) (ledger : List Block) (wins : List Auction) : List Block :=
  wins.foldl (settle crates effects node) ledger

/-- The auctions that a closing pass at `now` closes, as it closes them. -/
def justClosed (now : Int) (order : List Auction) : List Auction :=
  order.filterMap fun auction =>
    match auction.closeIfExpired now with
    | (true, auction) => some auction
    | (false, _) => none

/-- `host'` is `host` with the declared wins of `wins` taken up in its
ledger; the ledger file is as it was, or rubbish, or an earlier or the last
of the ledgers on the way. -/
structure Commits (host host' : Host) (wins : List Auction) : Prop where
  nodeInfo : host'.node.nodeInfo = host.node.nodeInfo
  config : host'.node.config = host.node.config
  routingTable : host'.node.routingTable = host.node.routingTable
  ledger : host'.node.ledger = settleAll crates effects host.node host.node.ledger wins
  file : host'.disk.ledger = host.disk.ledger ∨ host'.disk.ledger = .garbled ∨
    ∃ pre, pre <+: wins ∧
      host'.disk.ledger = .json (settleAll crates effects host.node host.node.ledger pre)

/-- All that settling one auction does to a ledger. -/
theorem settle_cases (node : Node) (ledger : List Block) (auction : Auction) :
    (settle crates effects node ledger auction = ledger ∧
      ∀ win, auction.declaredWin = some win → recordsWin ledger auction.key = true ∨
        hasReputationToCommit node.config ledger node.nodeInfo.id = false) ∨
    ∃ winner winningBid, auction.declaredWin = some (winner, winningBid) ∧
      recordsWin ledger auction.key = false ∧
      hasReputationToCommit node.config ledger node.nodeInfo.id = true ∧
      settle crates effects node ledger auction =
        ledger ++ [winBlock crates effects ledger auction.key auction.seller winner winningBid] := by
  unfold settle
  cases hwin : auction.declaredWin with
  | none => exact Or.inl ⟨rfl, fun win h => nomatch h⟩
  | some win =>
    by_cases hskip : recordsWin ledger auction.key = true ∨
        hasReputationToCommit node.config ledger node.nodeInfo.id = false
    · exact Or.inl ⟨by simp [hskip], fun _ _ => hskip⟩
    · have hboth := hskip
      push Not at hboth
      exact Or.inr ⟨win.1, win.2, rfl, by simpa using hboth.1, by simpa using hboth.2,
        by simp only [hskip, if_false]⟩

variable {crates effects}

theorem settle_of_not_unsettled {node : Node} {ledger : List Block} {auction : Auction}
    (h : ¬ Unsettled node ledger auction) : settle crates effects node ledger auction = ledger := by
  rcases settle_cases crates effects node ledger auction with
    ⟨hsame, _⟩ | ⟨winner, winningBid, hwin, hnew, hrep, _⟩
  · exact hsame
  · exact absurd ⟨⟨_, hwin⟩, hnew, hrep⟩ h

/-- Settling an unsettled auction appends one block. -/
theorem settle_of_unsettled {node : Node} {ledger : List Block} {auction : Auction}
    (h : Unsettled node ledger auction) :
    ∃ winner winningBid, auction.declaredWin = some (winner, winningBid) ∧
      settle crates effects node ledger auction =
        ledger ++ [winBlock crates effects ledger auction.key auction.seller winner winningBid] := by
  obtain ⟨⟨⟨winner, winningBid⟩, hwin⟩, hnew, hrep⟩ := h
  refine ⟨winner, winningBid, hwin, ?_⟩
  unfold settle
  simp [hwin, hnew, hrep]

theorem settle_ne_of_unsettled {node : Node} {ledger : List Block} {auction : Auction}
    (h : Unsettled node ledger auction) : settle crates effects node ledger auction ≠ ledger := by
  obtain ⟨_, _, _, hpush⟩ : ∃ winner winningBid, _ ∧ settle crates effects node ledger auction = _ :=
    settle_of_unsettled h
  rw [hpush]
  simp

/-- A property of ledgers that every settlement keeps is kept by several. -/
theorem settleAll_induction {P : List Block → Prop} {node : Node} {ledger : List Block}
    {wins : List Auction} (h : P ledger)
    (hstep : ∀ ledger, ∀ auction ∈ wins, P ledger → P (settle crates effects node ledger auction)) :
    P (settleAll crates effects node ledger wins) := by
  induction wins generalizing ledger with
  | nil => exact h
  | cons auction wins ih =>
    exact ih (hstep ledger auction List.mem_cons_self h)
      fun ledger a ha => hstep ledger a (List.mem_cons_of_mem _ ha)

theorem settleAll_cons (node : Node) (ledger : List Block) (auction : Auction)
    (wins : List Auction) :
    settleAll crates effects node ledger (auction :: wins) =
      settleAll crates effects node (settle crates effects node ledger auction) wins := rfl

theorem settle_congr {node node' : Node} (hinfo : node'.nodeInfo = node.nodeInfo)
    (hconfig : node'.config = node.config) (ledger : List Block) (auction : Auction) :
    settle crates effects node' ledger auction = settle crates effects node ledger auction := by
  unfold settle
  rw [hinfo, hconfig]

/-- A ledger only grows. -/
theorem prefix_settle (node : Node) (ledger : List Block) (auction : Auction) :
    ledger <+: settle crates effects node ledger auction := by
  rcases settle_cases crates effects node ledger auction with
    ⟨h, _⟩ | ⟨_, _, _, _, _, h⟩
  · rw [h]
  · rw [h]
    exact List.prefix_append _ _

theorem prefix_settleAll (node : Node) (ledger : List Block) (wins : List Auction) :
    ledger <+: settleAll crates effects node ledger wins :=
  settleAll_induction (List.prefix_refl ledger) fun _ auction _ h =>
    h.trans (prefix_settle node _ auction)

theorem mem_justClosed {now : Int} {order : List Auction} {closed : Auction} :
    closed ∈ justClosed now order ↔
      ∃ auction ∈ order, auction.status = .Open ∧ auction.endsAt ≤ now ∧ closed = auction.close := by
  unfold justClosed
  rw [List.mem_filterMap]
  refine exists_congr fun auction => and_congr_right fun _ => ?_
  rcases auction.closeIfExpired_cases now with ⟨h, hwhy⟩ | ⟨h, hopen, hdue⟩
  · rw [h]
    constructor
    · intro hsome
      cases hsome
    · intro ⟨hopen, hdue, _⟩
      rcases hwhy with hclosed | hearly
      · rw [hopen] at hclosed
        cases hclosed
      · omega
  · rw [h]
    exact ⟨fun hsome => ⟨hopen, hdue, (Option.some.inj hsome).symm⟩,
      fun ⟨_, _, heq⟩ => congrArg some heq.symm⟩

/-! ## The calls -/

namespace Commits

theorem refl (host : Host) : Commits crates effects host host [] where
  nodeInfo := rfl
  config := rfl
  routingTable := rfl
  ledger := rfl
  file := Or.inl rfl

/-- The store and its file play no part. -/
theorem of_eq_ledger {host host' host'' : Host} {wins : List Auction}
    (h : Commits crates effects host host' wins) (hinfo : host''.node.nodeInfo = host'.node.nodeInfo)
    (hconfig : host''.node.config = host'.node.config)
    (htable : host''.node.routingTable = host'.node.routingTable)
    (hledger : host''.node.ledger = host'.node.ledger)
    (hfile : host''.disk.ledger = host'.disk.ledger) : Commits crates effects host host'' wins where
  nodeInfo := hinfo.trans h.nodeInfo
  config := hconfig.trans h.config
  routingTable := htable.trans h.routingTable
  ledger := hledger.trans h.ledger
  file := by
    rw [hfile]
    exact h.file

/-- Settling goes on where it stopped. -/
theorem settleAll_next {host host' : Host} {wins : List Auction}
    (h : Commits crates effects host host' wins) (wins' : List Auction) :
    settleAll crates effects host'.node host'.node.ledger wins' =
      settleAll crates effects host.node host.node.ledger (wins ++ wins') := by
  have hsame : settle crates effects host'.node = settle crates effects host.node := by
    funext ledger auction
    exact settle_congr h.nodeInfo h.config ledger auction
  unfold settleAll
  rw [hsame, List.foldl_append, h.ledger]
  rfl

theorem trans {host host' host'' : Host} {wins wins' : List Auction}
    (h : Commits crates effects host host' wins)
    (h' : Commits crates effects host' host'' wins') :
    Commits crates effects host host'' (wins ++ wins') where
  nodeInfo := h'.nodeInfo.trans h.nodeInfo
  config := h'.config.trans h.config
  routingTable := h'.routingTable.trans h.routingTable
  ledger := by
    rw [h'.ledger, h.settleAll_next]
  file := by
    rcases h'.file with hold | hgarbled | ⟨pre, hpre, hnew⟩
    · rcases h.file with hold' | hgarbled' | ⟨pre', hpre', hnew'⟩
      · exact Or.inl (hold.trans hold')
      · exact Or.inr (Or.inl (hold.trans hgarbled'))
      · exact Or.inr (Or.inr ⟨pre', hpre'.trans (List.prefix_append _ _), hold.trans hnew'⟩)
    · exact Or.inr (Or.inl hgarbled)
    · rw [h.settleAll_next] at hnew
      exact Or.inr (Or.inr ⟨wins ++ pre, (List.prefix_append_right_inj wins).mpr hpre, hnew⟩)

/-- The ledger before is a prefix of the ledger after. -/
theorem prefix_ledger {host host' : Host} {wins : List Auction}
    (h : Commits crates effects host host' wins) : host.node.ledger <+: host'.node.ledger := by
  rw [h.ledger]
  exact prefix_settleAll ..

end Commits

namespace Host

variable (host : Host)

/-- The host with another ledger, in memory and in the file. -/
def withLedger (ledger : List Block) (file : File Block) : Host where
  node := { host.node with ledger }
  disk := { host.disk with ledger := file }

/-- The host with another store, in memory and in the file. -/
def withAuctions (auctions : AuctionSet) (file : File Auction) : Host where
  node := { host.node with auctions }
  disk := { host.disk with auctions := file }

/-- **`record_auction_win`** behind its two callers: nothing to do, or one
block more in memory, and then in the file unless the write fails. -/
theorem recordDeclaredWin_cases (crates : Crates) (effects : Effects) (auction : Auction) :
    (¬ Unsettled host.node host.node.ledger auction ∧
      host.recordDeclaredWin crates effects auction = (.ok (), host)) ∨
    (Unsettled host.node host.node.ledger auction ∧
      effects.ledgerWrite host.node.ledger.length = .written ∧
      host.recordDeclaredWin crates effects auction =
        (.ok (), host.withLedger (settle crates effects host.node host.node.ledger auction)
          (.json (settle crates effects host.node host.node.ledger auction)))) ∨
    (Unsettled host.node host.node.ledger auction ∧
      effects.ledgerWrite host.node.ledger.length ≠ .written ∧
      ∃ e, host.recordDeclaredWin crates effects auction =
        (.error e, host.withLedger (settle crates effects host.node host.node.ledger auction)
          ((effects.ledgerWrite host.node.ledger.length).leaves host.disk.ledger))) := by
  unfold recordDeclaredWin
  cases hwin : auction.declaredWin with
  | none =>
    refine Or.inl ⟨?_, rfl⟩
    rintro ⟨⟨win, hsome⟩, _⟩
    rw [hwin] at hsome
    cases hsome
  | some win =>
    obtain ⟨winner, winningBid⟩ := win
    simp only
    unfold recordAuctionWin
    by_cases hrec : recordsWin host.node.ledger auction.key = true
    · rw [if_pos hrec]
      refine Or.inl ⟨?_, rfl⟩
      rintro ⟨_, hnew, _⟩
      rw [hrec] at hnew
      cases hnew
    · rw [if_neg hrec]
      by_cases hrep : hasReputationToCommit host.node.config host.node.ledger
          host.node.nodeInfo.id = false
      · rw [if_pos hrep]
        refine Or.inl ⟨?_, rfl⟩
        rintro ⟨_, _, hmay⟩
        rw [hrep] at hmay
        cases hmay
      · rw [if_neg hrep]
        have hdue : Unsettled host.node host.node.ledger auction :=
          ⟨⟨_, hwin⟩, by simpa using hrec, by simpa using hrep⟩
        have hpush : settle crates effects host.node host.node.ledger auction =
            host.node.ledger ++ [winBlock crates effects host.node.ledger auction.key
              auction.seller winner winningBid] := by
          unfold settle
          simp [hwin, hrec, hrep]
        rw [hpush]
        simp only [saveLedger]
        rcases writeJson_cases host.node.config.dataDir
            (joinPath host.node.config.dataDir ledgerFile) host.disk.ledger
            (host.node.ledger ++ [winBlock crates effects host.node.ledger auction.key
              auction.seller winner winningBid])
            (effects.ledgerWrite host.node.ledger.length) with
          ⟨hwrite, hok⟩ | ⟨hnot, e, hwrite⟩
        · rw [hwrite]
          exact Or.inr (Or.inl ⟨hdue, hok, rfl⟩)
        · rw [hwrite]
          exact Or.inr (Or.inr ⟨hdue, hnot, e, rfl⟩)

theorem recordDeclaredWin_commits (crates : Crates) (effects : Effects) (auction : Auction) :
    Commits crates effects host (host.recordDeclaredWin crates effects auction).2 [auction] ∧
      (host.recordDeclaredWin crates effects auction).2.node.auctions = host.node.auctions ∧
      (host.recordDeclaredWin crates effects auction).2.disk.auctions = host.disk.auctions := by
  rcases host.recordDeclaredWin_cases crates effects auction with
    ⟨hskip, h⟩ | ⟨_, _, h⟩ | ⟨_, _, e, h⟩
  · rw [h]
    exact ⟨⟨rfl, rfl, rfl, (settle_of_not_unsettled hskip).symm, Or.inl rfl⟩, rfl, rfl⟩
  · rw [h]
    exact ⟨⟨rfl, rfl, rfl, rfl, Or.inr (Or.inr ⟨[auction], List.prefix_refl _, rfl⟩)⟩, rfl, rfl⟩
  · rw [h]
    refine ⟨⟨rfl, rfl, rfl, rfl, ?_⟩, rfl, rfl⟩
    rcases WriteOutcome.leaves_cases host.disk.ledger
        (effects.ledgerWrite host.node.ledger.length) with hold | hgarbled
    · exact Or.inl hold
    · exact Or.inr (Or.inl hgarbled)

theorem recordDeclaredWin_written (h : effects.AllWritten) (auction : Auction) :
    (host.recordDeclaredWin crates effects auction).1 = .ok () := by
  rcases host.recordDeclaredWin_cases crates effects auction with
    ⟨_, hrun⟩ | ⟨_, _, hrun⟩ | ⟨_, hnot, _⟩
  · rw [hrun]
  · rw [hrun]
  · exact absurd (h.2 _) hnot

/-- `persist_auctions_locked` touches only the auctions file. -/
theorem persistAuctionsLocked_cases (effects : Effects) :
    (effects.auctionsWrite = .written ∧ host.persistAuctionsLocked effects = (.ok (),
      { host with disk := { host.disk with auctions := .json host.node.auctions.elems } })) ∨
    (effects.auctionsWrite ≠ .written ∧ ∃ e, host.persistAuctionsLocked effects =
      (.error e, { host with
        disk := { host.disk with
          auctions := effects.auctionsWrite.leaves host.disk.auctions } })) := by
  unfold persistAuctionsLocked saveAuctions
  rcases writeJson_cases host.node.config.dataDir (joinPath host.node.config.dataDir auctionsFile)
    host.disk.auctions host.node.auctions.elems effects.auctionsWrite with
    ⟨hwrite, hok⟩ | ⟨hnot, e, hwrite⟩
  · exact Or.inl ⟨hok, by rw [hwrite]⟩
  · exact Or.inr ⟨hnot, e, by rw [hwrite]⟩

/-! ### `store_auction` -/

/-- The host once `store_auction` has replaced the auction and written the
store. -/
def afterReplace (auction : Auction) : Host :=
  host.withAuctions (host.node.auctions.replace auction)
    (.json (host.node.auctions.replace auction).elems)

/-- All that `store_auction` can do: replace the auction and fail to write the
store, or go on to its win. -/
theorem storeAuction_cases (crates : Crates) (effects : Effects) (auction : Auction) :
    (effects.auctionsWrite ≠ .written ∧ ∃ e, host.storeAuction crates effects auction =
      (.error e, host.withAuctions (host.node.auctions.replace auction)
        (effects.auctionsWrite.leaves host.disk.auctions))) ∨
    (effects.auctionsWrite = .written ∧ host.storeAuction crates effects auction =
      (((host.afterReplace auction).recordDeclaredWin crates effects auction).1.map fun _ => true,
        ((host.afterReplace auction).recordDeclaredWin crates effects auction).2)) := by
  unfold storeAuction
  simp only
  rcases persistAuctionsLocked_cases
      { host with node := { host.node with auctions := host.node.auctions.replace auction } }
      effects with ⟨hok, hpersist⟩ | ⟨hnot, e, hpersist⟩
  · rw [hpersist]
    refine Or.inr ⟨hok, ?_⟩
    simp only
    rw [show Host.mk { host.node with auctions := host.node.auctions.replace auction }
        { host.disk with auctions := .json (host.node.auctions.replace auction).elems } =
      host.afterReplace auction from rfl]
    cases (host.afterReplace auction).recordDeclaredWin crates effects auction with
    | mk result after => cases result <;> rfl
  · rw [hpersist]
    exact Or.inl ⟨hnot, e, rfl⟩

/-- **`store_auction`**: the auction replaces the one with its key, whatever
fails after that, and its win is taken up unless the store was not
written. -/
theorem storeAuction_commits (crates : Crates) (effects : Effects) (auction : Auction) :
    (host.storeAuction crates effects auction).2.node.auctions = host.node.auctions.replace auction ∧
    (∃ settled, settled <+: [auction] ∧
      Commits crates effects host (host.storeAuction crates effects auction).2 settled ∧
      (effects.auctionsWrite = .written → settled = [auction])) ∧
    (effects.AllWritten → (host.storeAuction crates effects auction).1 = .ok true) := by
  rcases host.storeAuction_cases crates effects auction with ⟨hnot, e, h⟩ | ⟨_, h⟩
  · rw [h]
    refine ⟨rfl, ⟨[], List.nil_prefix, ⟨rfl, rfl, rfl, rfl, Or.inl rfl⟩, fun hok => ?_⟩,
      fun hall => ?_⟩
    · exact absurd hok hnot
    · exact absurd hall.1 hnot
  · obtain ⟨hwin, hkept, _⟩ :=
      (host.afterReplace auction).recordDeclaredWin_commits crates effects auction
    rw [h]
    -- `Commits` does not look at the store, which is all that the replacement changed.
    refine ⟨hkept, ⟨[auction], List.prefix_refl _, ⟨hwin.nodeInfo, hwin.config, hwin.routingTable,
      hwin.ledger, hwin.file⟩, fun _ => rfl⟩, fun hall => ?_⟩
    simp [recordDeclaredWin_written (host.afterReplace auction) hall auction, Except.map]

/-- What is held afterwards, whatever fails. -/
theorem mem_storeAuction {host : Host} {crates : Crates} {effects : Effects} {auction a : Auction} :
    a ∈ (host.storeAuction crates effects auction).2.node.auctions ↔
      a = auction ∨ a ∈ host.node.auctions ∧ a.key ≠ auction.key := by
  rw [(host.storeAuction_commits crates effects auction).1, KeyedSet.mem_replace]

theorem mem_storeAuction_self {host : Host} {crates : Crates} {effects : Effects}
    {auction : Auction} :
    auction ∈ (host.storeAuction crates effects auction).2.node.auctions :=
  mem_storeAuction.mpr (Or.inl rfl)

/-- What a new auction and all held ones have, all held ones have afterwards. -/
theorem forall_mem_storeAuction {host : Host} {crates : Crates} {effects : Effects}
    {auction : Auction} {Q : Auction → Prop} (hnew : Q auction) (hheld : ∀ a ∈ host.node.auctions, Q a) :
    ∀ a ∈ (host.storeAuction crates effects auction).2.node.auctions, Q a := by
  intro a ha
  rcases mem_storeAuction.mp ha with rfl | ⟨hold, _⟩
  · exact hnew
  · exact hheld a hold

@[simp] theorem nodeInfo_storeAuction (crates : Crates) (effects : Effects) (auction : Auction) :
    (host.storeAuction crates effects auction).2.node.nodeInfo = host.node.nodeInfo := by
  obtain ⟨_, ⟨_, _, hcommits, _⟩, _⟩ := host.storeAuction_commits crates effects auction
  exact hcommits.nodeInfo

@[simp] theorem config_storeAuction (crates : Crates) (effects : Effects) (auction : Auction) :
    (host.storeAuction crates effects auction).2.node.config = host.node.config := by
  obtain ⟨_, ⟨_, _, hcommits, _⟩, _⟩ := host.storeAuction_commits crates effects auction
  exact hcommits.config

@[simp] theorem routingTable_storeAuction (crates : Crates) (effects : Effects)
    (auction : Auction) :
    (host.storeAuction crates effects auction).2.node.routingTable = host.node.routingTable := by
  obtain ⟨_, ⟨_, _, hcommits, _⟩, _⟩ := host.storeAuction_commits crates effects auction
  exact hcommits.routingTable

/-- What `store_auction` leaves in the auctions file: the store, the old
content, or rubbish. -/
theorem storeAuction_file (crates : Crates) (effects : Effects) (auction : Auction) :
    (host.storeAuction crates effects auction).2.disk.auctions =
        .json (host.node.auctions.replace auction).elems ∨
      (host.storeAuction crates effects auction).2.disk.auctions = host.disk.auctions ∨
      (host.storeAuction crates effects auction).2.disk.auctions = .garbled := by
  rcases host.storeAuction_cases crates effects auction with ⟨_, e, h⟩ | ⟨_, h⟩
  · rw [h]
    exact Or.inr (WriteOutcome.leaves_cases host.disk.auctions effects.auctionsWrite)
  · rw [h]
    exact Or.inl ((host.afterReplace auction).recordDeclaredWin_commits crates effects auction).2.2

/-! ### `close_expired_auctions` -/

/-- Take up the declared wins of several auctions, up to the first
failure. -/
def recordDeclaredWins (crates : Crates) (effects : Effects) :
    List Auction → Host → Except String Unit × Host
  | [], host => (.ok (), host)
  | auction :: wins, host =>
      match host.recordDeclaredWin crates effects auction with
      | (.error e, host) => (.error e, host)
      | (.ok (), host) => recordDeclaredWins crates effects wins host

/-- The loop of `close_expired_auctions` takes up the wins of the auctions it
closes; without a failure it hands them on, and every auction as it left
it. -/
theorem closeLoop_eq (crates : Crates) (effects : Effects) (now : Int) :
    ∀ (order : List Auction) (host : Host) (closed updated : List Auction),
      closeLoop crates effects now order host closed updated =
        ((recordDeclaredWins crates effects (justClosed now order) host).1.map fun _ =>
            (closed ++ justClosed now order,
              updated ++ order.map fun auction => (auction.closeIfExpired now).2),
          (recordDeclaredWins crates effects (justClosed now order) host).2) := by
  intro order host closed updated
  induction order generalizing host closed updated with
  | nil => simp [closeLoop, justClosed, recordDeclaredWins, Except.map]
  | cons auction rest ih =>
    rcases auction.closeIfExpired_cases now with ⟨hkept, _⟩ | ⟨hclosed, _⟩
    · have hjust : justClosed now (auction :: rest) = justClosed now rest := by
        simp [justClosed, hkept]
      rw [closeLoop, hkept, hjust]
      simp only
      rw [ih]
      simp [hkept]
    · have hjust : justClosed now (auction :: rest) = auction.close :: justClosed now rest := by
        simp [justClosed, hclosed]
      rw [closeLoop, hclosed, hjust, recordDeclaredWins]
      simp only
      cases host.recordDeclaredWin crates effects auction.close with
      | mk result after =>
        cases result with
        | error e => rfl
        | ok _ =>
          simp only
          rw [ih]
          simp [hclosed]

/-- What taking up several wins does, by induction along them. -/
theorem recordDeclaredWins_commits (crates : Crates) (effects : Effects) :
    ∀ (wins : List Auction) (host : Host), ∃ settled, settled <+: wins ∧
      Commits crates effects host (recordDeclaredWins crates effects wins host).2 settled ∧
      (recordDeclaredWins crates effects wins host).2.node.auctions = host.node.auctions ∧
      (recordDeclaredWins crates effects wins host).2.disk.auctions = host.disk.auctions ∧
      ((∃ e, (recordDeclaredWins crates effects wins host).1 = .error e ∧ ¬ effects.AllWritten) ∨
        (settled = wins ∧ (recordDeclaredWins crates effects wins host).1 = .ok ())) := by
  intro wins host
  induction wins generalizing host with
  | nil => exact ⟨[], List.prefix_refl _, Commits.refl host, rfl, rfl, Or.inr ⟨rfl, rfl⟩⟩
  | cons auction wins ih =>
    obtain ⟨hwin, hstore, hfile⟩ := host.recordDeclaredWin_commits crates effects auction
    have hok : effects.AllWritten → (host.recordDeclaredWin crates effects auction).1 = .ok () :=
      fun h => recordDeclaredWin_written host h auction
    rw [recordDeclaredWins]
    generalize host.recordDeclaredWin crates effects auction = recorded at hwin hstore hfile hok
    obtain ⟨result, after⟩ := recorded
    cases result with
    | error e =>
      refine ⟨[auction], ⟨wins, rfl⟩, hwin, hstore, hfile, Or.inl ⟨e, rfl, fun hall => ?_⟩⟩
      cases hok hall
    | ok _ =>
      obtain ⟨settled, hpre, hcommits, hstore', hfile', hresult⟩ := ih after
      refine ⟨auction :: settled, by simpa using hpre, hwin.trans hcommits, hstore'.trans hstore,
        hfile'.trans hfile, ?_⟩
      rcases hresult with herror | ⟨rfl, hdone⟩
      · exact Or.inl herror
      · exact Or.inr ⟨rfl, hdone⟩

/-- The store that a complete closing pass leaves. -/
def closedStore (now : Int) (order : List Auction) : AuctionSet :=
  KeyedSet.collect (order.map fun auction => (auction.closeIfExpired now).2)

/-- All that `close_expired_auctions` can do: fail on a win and leave the
store as it was, or close what is due and then write the store, or not. -/
theorem closeExpiredAuctions_cases (crates : Crates) (effects : Effects) (now : Int)
    (order : List Auction) :
    (∃ e, (recordDeclaredWins crates effects (justClosed now order) host).1 = .error e ∧
      host.closeExpiredAuctions crates effects now order =
        (.error e, (recordDeclaredWins crates effects (justClosed now order) host).2)) ∨
    ((recordDeclaredWins crates effects (justClosed now order) host).1 = .ok () ∧
      ((effects.auctionsWrite = .written ∧
          host.closeExpiredAuctions crates effects now order =
            (.ok (justClosed now order),
              (recordDeclaredWins crates effects (justClosed now order) host).2.withAuctions
                (closedStore now order) (.json (closedStore now order).elems))) ∨
        (effects.auctionsWrite ≠ .written ∧ ∃ e,
          host.closeExpiredAuctions crates effects now order =
            (.error e, (recordDeclaredWins crates effects (justClosed now order) host).2.withAuctions
              (closedStore now order) (effects.auctionsWrite.leaves host.disk.auctions))))) := by
  obtain ⟨_, _, _, _, hfile, _⟩ :=
    recordDeclaredWins_commits crates effects (justClosed now order) host
  unfold closeExpiredAuctions
  rw [closeLoop_eq]
  generalize recordDeclaredWins crates effects (justClosed now order) host = recorded at hfile
  obtain ⟨result, after⟩ := recorded
  cases result with
  | error e => exact Or.inl ⟨e, rfl, rfl⟩
  | ok _ =>
    refine Or.inr ⟨rfl, ?_⟩
    simp only [Except.map, List.nil_append]
    rcases persistAuctionsLocked_cases
        { after with node := { after.node with auctions := closedStore now order } } effects with
      ⟨hok, hpersist⟩ | ⟨hnot, e, hpersist⟩
    · unfold closedStore at hpersist
      rw [hpersist]
      exact Or.inl ⟨hok, rfl⟩
    · unfold closedStore at hpersist
      simp only at hpersist hfile
      rw [hpersist, hfile]
      exact Or.inr ⟨hnot, e, rfl⟩

/-- **`close_expired_auctions`**: the closed auctions are settled in the order
of the pass, up to the first failing write; the store is as it was, or holds
every auction as `close_if_expired` leaves it. -/
theorem closeExpiredAuctions_commits (crates : Crates) (effects : Effects) (now : Int)
    (order : List Auction) :
    ∃ settled, settled <+: justClosed now order ∧
      Commits crates effects host (host.closeExpiredAuctions crates effects now order).2 settled ∧
      ((host.closeExpiredAuctions crates effects now order).2.node.auctions = host.node.auctions ∨
        (settled = justClosed now order ∧
          (host.closeExpiredAuctions crates effects now order).2.node.auctions =
            KeyedSet.collect (order.map fun auction => (auction.closeIfExpired now).2))) ∧
      (effects.AllWritten → settled = justClosed now order ∧
        (host.closeExpiredAuctions crates effects now order).1 = .ok (justClosed now order) ∧
        (host.closeExpiredAuctions crates effects now order).2.node.auctions =
          KeyedSet.collect (order.map fun auction => (auction.closeIfExpired now).2)) := by
  obtain ⟨settled, hpre, hcommits, hstore, _, hresult⟩ :=
    recordDeclaredWins_commits crates effects (justClosed now order) host
  rcases host.closeExpiredAuctions_cases crates effects now order with
    ⟨e, herror, h⟩ | ⟨hdone, hwritten⟩
  · rw [h]
    refine ⟨settled, hpre, hcommits, Or.inl hstore, fun hall => ?_⟩
    rcases hresult with ⟨_, _, hfailed⟩ | ⟨_, hok⟩
    · exact absurd hall hfailed
    · rw [herror] at hok
      cases hok
  · have hsettled : settled = justClosed now order := by
      rcases hresult with ⟨e, herror, _⟩ | ⟨hsettled, _⟩
      · rw [hdone] at herror
        cases herror
      · exact hsettled
    rcases hwritten with ⟨_, h⟩ | ⟨hnot, e, h⟩
    · rw [h]
      exact ⟨settled, hpre, hcommits.of_eq_ledger rfl rfl rfl rfl rfl, Or.inr ⟨hsettled, rfl⟩,
        fun _ => ⟨hsettled, rfl, rfl⟩⟩
    · rw [h]
      exact ⟨settled, hpre, hcommits.of_eq_ledger rfl rfl rfl rfl rfl, Or.inr ⟨hsettled, rfl⟩,
        fun hall => absurd hall.1 hnot⟩

@[simp] theorem nodeInfo_closeExpiredAuctions (crates : Crates) (effects : Effects) (now : Int)
    (order : List Auction) :
    (host.closeExpiredAuctions crates effects now order).2.node.nodeInfo = host.node.nodeInfo := by
  obtain ⟨_, _, hcommits, _⟩ := host.closeExpiredAuctions_commits crates effects now order
  exact hcommits.nodeInfo

@[simp] theorem config_closeExpiredAuctions (crates : Crates) (effects : Effects) (now : Int)
    (order : List Auction) :
    (host.closeExpiredAuctions crates effects now order).2.node.config = host.node.config := by
  obtain ⟨_, _, hcommits, _⟩ := host.closeExpiredAuctions_commits crates effects now order
  exact hcommits.config

/-- The auctions of the store that a complete closing pass leaves. -/
theorem mem_collect_closeIfExpired {store : AuctionSet} {now : Int} {order : List Auction}
    (horder : order.Perm store.elems) {auction : Auction} :
    auction ∈ (KeyedSet.collect (order.map fun a => (a.closeIfExpired now).2) : AuctionSet) ↔
      ∃ before ∈ store, auction = (before.closeIfExpired now).2 := by
  rw [KeyedSet.mem_def, KeyedSet.elems_collect_map (fun a => a.closeIfExpired_key now) horder,
    List.mem_map]
  constructor
  · intro ⟨before, hmem, heq⟩
    exact ⟨before, horder.mem_iff.mp hmem, heq.symm⟩
  · intro ⟨before, hmem, heq⟩
    exact ⟨before, horder.mem_iff.mpr hmem, heq.symm⟩

/-! ### What all auctions have -/

/-- The auctions of the store and of its file have `Q`. -/
structure Holds (Q : Auction → Prop) (host : Host) : Prop where
  store : ∀ auction ∈ host.node.auctions, Q auction
  file : ∀ auctions, host.disk.auctions = .json auctions → ∀ auction ∈ auctions, Q auction

variable {host : Host} {Q : Auction → Prop}

theorem Holds.mono {Q' : Auction → Prop} (h : host.Holds Q) (hQ : ∀ a, Q a → Q' a) :
    host.Holds Q' :=
  ⟨fun a ha => hQ a (h.store a ha), fun auctions hfile a ha => hQ a (h.file auctions hfile a ha)⟩

theorem Holds.storeAuction (h : host.Holds Q) {auction : Auction} (hauction : Q auction)
    (crates : Crates) (effects : Effects) :
    (host.storeAuction crates effects auction).2.Holds Q := by
  refine ⟨forall_mem_storeAuction hauction h.store, fun auctions hfile a ha => ?_⟩
  rcases host.storeAuction_file crates effects auction with hnew | hold | hgarbled
  · obtain rfl := File.json.inj (hnew.symm.trans hfile)
    rcases KeyedSet.mem_replace.mp ha with rfl | ⟨hheld, _⟩
    · exact hauction
    · exact h.store a hheld
  · exact h.file auctions (hold.symm.trans hfile) a ha
  · rw [hgarbled] at hfile
    cases hfile

/-- A closing pass keeps what `close_if_expired` keeps. -/
theorem Holds.closeExpiredAuctions (h : host.Holds Q)
    (hclose : ∀ a, Q a → a.status = .Open → Q a.close) (crates : Crates) (effects : Effects)
    {now : Int} {order : List Auction} (horder : order.Perm host.node.auctions.elems) :
    (host.closeExpiredAuctions crates effects now order).2.Holds Q := by
  have hafter : ∀ a ∈ closedStore now order, Q a := by
    intro a ha
    obtain ⟨before, hbefore, rfl⟩ := (mem_collect_closeIfExpired horder).mp ha
    rcases before.closeIfExpired_cases now with ⟨heq, _⟩ | ⟨heq, hopen, _⟩
    · rw [heq]
      exact h.store before hbefore
    · rw [heq]
      exact hclose before (h.store before hbefore) hopen
  obtain ⟨_, _, _, hstore, hfile, _⟩ :=
    recordDeclaredWins_commits crates effects (justClosed now order) host
  rcases host.closeExpiredAuctions_cases crates effects now order with
    ⟨_, _, heq⟩ | ⟨_, ⟨_, heq⟩ | ⟨_, _, heq⟩⟩
  · rw [heq]
    exact ⟨fun a ha => h.store a (hstore ▸ ha),
      fun auctions hjson => h.file auctions (hfile.symm.trans hjson)⟩
  · rw [heq]
    refine ⟨hafter, fun auctions hjson a ha => ?_⟩
    obtain rfl := File.json.inj hjson
    exact hafter a ha
  · rw [heq]
    refine ⟨hafter, fun auctions hjson a ha => ?_⟩
    have hleaves : effects.auctionsWrite.leaves host.disk.auctions = .json auctions := hjson
    rcases WriteOutcome.leaves_cases host.disk.auctions effects.auctionsWrite with hold | hgarbled
    · exact h.file auctions (hold.symm.trans hleaves) a ha
    · rw [hgarbled] at hleaves
      cases hleaves

/-- A node that starts again has what its file has. -/
theorem Holds.restart (h : host.Holds Q) (config : Config) : (host.restart config).Holds Q := by
  refine ⟨?_, h.file⟩
  intro a ha
  have hloaded := KeyedSet.mem_of_mem_collect ha
  unfold loadAuctions at hloaded
  cases hfile : host.disk.auctions with
  | absent => simp [hfile, readJson, Except.toOption] at hloaded
  | json auctions =>
    refine h.file auctions hfile a ?_
    simpa [hfile, readJson, Except.toOption] using hloaded
  | garbled => simp [hfile, readJson, Except.toOption] at hloaded

end Host

end KademliaAuction

/-
KademliaAuction.Reputation — who ever commits a block in proof-of-reputation
mode.

A node earns its score from the blocks of its own ledger, and
`record_auction_win` is the only thing that adds blocks to it. So the gate
reads what it guards: a node whose ledger does not give it the score it needs
keeps that ledger for ever (`ledger_of_gated`). `por_ledger_reachable_iff`
draws the conclusion for the first start: from an empty ledger a
proof-of-reputation node can commit exactly when its threshold is zero.

What the gate reads is the `score`, the number of times that the node is a
party of an `AuctionWon` transaction: roles are counted, not transactions
(`reputation_counts_roles`). It only grows with the ledger, so a gate
that has opened stays open, and each block of a run stands behind a prefix
that gave the score it needed (`commits_have_score`).
-/
import KademliaAuction.LedgerTheorems

namespace KademliaAuction

open Blockchain Routing Storage Lib

/-! ## The score -/

/-- How often a node is the sender or the recipient of an `AuctionWon`
transaction. -/
def score (ledger : List Block) (nodeId : Address) : Nat :=
  let won := (transactions ledger).filter fun tx => tx.wonKey?.isSome
  (won.map Transaction.sender).count nodeId + (won.map Transaction.recipient).count nodeId

theorem score_append (ledger ledger' : List Block) (nodeId : Address) :
    score (ledger ++ ledger') nodeId = score ledger nodeId + score ledger' nodeId := by
  simp only [score, transactions, List.flatMap_append, List.filter_append, List.map_append,
    List.count_append]
  omega

theorem score_mono {ledger ledger' : List Block} (h : ledger <+: ledger') (nodeId : Address) :
    score ledger nodeId ≤ score ledger' nodeId := by
  obtain ⟨rest, rfl⟩ := h
  rw [score_append]
  exact Nat.le_add_right _ _

theorem Scores.getD_bump (scores : Scores) (address nodeId : Address) :
    (scores.bump address nodeId).getD 0 =
      (scores nodeId).getD 0 + if address = nodeId then 1 else 0 := by
  unfold Scores.bump
  by_cases h : address = nodeId
  · rw [← h, Function.update_self, if_pos rfl, Option.getD_some]
  · rw [Function.update_of_ne (Ne.symm h), if_neg h, Nat.add_zero]

/-- The fold counts on from the scores it starts with. -/
theorem getD_foldl_addTransaction (txs : List Transaction) (scores : Scores) (nodeId : Address) :
    let won := txs.filter fun tx => tx.wonKey?.isSome
    (txs.foldl Scores.addTransaction scores nodeId).getD 0 =
      (scores nodeId).getD 0 +
        ((won.map Transaction.sender).count nodeId + (won.map Transaction.recipient).count nodeId) := by
  induction txs generalizing scores with
  | nil => rfl
  | cons tx txs ih =>
    rw [List.foldl_cons]
    dsimp only at ih ⊢
    rw [ih]
    unfold Scores.addTransaction
    cases hkind : tx.kind with
    | transfer => simp [Transaction.wonKey?, hkind]
    | auctionWon auction =>
      simp only [Scores.getD_bump, Transaction.wonKey?, hkind, List.filter_cons, Option.isSome_some,
        if_true, List.map_cons, List.count_cons, beq_iff_eq]
      omega

/-- **The table of scores**, on every ledger. -/
theorem getD_reputationScores (ledger : List Block) (nodeId : Address) :
    (reputationScores ledger nodeId).getD 0 = score ledger nodeId := by
  unfold reputationScores score transactions
  rw [← List.foldl_flatMap, getD_foldl_addTransaction]
  exact Nat.zero_add _

theorem hasReputationToCommit_iff {config : Config}
    (h : ConsensusMode.fromConfig config = .ProofOfReputation) (ledger : List Block)
    (nodeId : Address) :
    hasReputationToCommit config ledger nodeId = true ↔
      config.reputationThreshold ≤ score ledger nodeId := by
  unfold hasReputationToCommit
  rw [h]
  simp only [getD_reputationScores, decide_eq_true_eq]

/-- A gate that has opened stays open when the ledger grows. -/
theorem hasReputationToCommit_mono {config : Config} {ledger ledger' : List Block}
    (h : ledger <+: ledger') {nodeId : Address}
    (hrep : hasReputationToCommit config ledger nodeId = true) :
    hasReputationToCommit config ledger' nodeId = true := by
  cases hmode : ConsensusMode.fromConfig config with
  | ProofOfWork => exact hasReputationToCommit_of_pow hmode _ _
  | ProofOfReputation =>
    rw [hasReputationToCommit_iff hmode] at hrep ⊢
    exact hrep.trans (score_mono h nodeId)

/-! ## Roles and participations -/

/-- The `AuctionWon` transactions of a ledger. -/
def wonTransactions (ledger : List Block) : List Transaction :=
  (transactions ledger).filter fun tx => tx.wonKey?.isSome

/-- How many `AuctionWon` transactions a node takes part in, as winner or as
seller. -/
def participations (ledger : List Block) (nodeId : Address) : Nat :=
  (wonTransactions ledger).countP fun tx => tx.sender = nodeId ∨ tx.recipient = nodeId

/-- How many it takes part in as both. -/
def selfDeals (ledger : List Block) (nodeId : Address) : Nat :=
  (wonTransactions ledger).countP fun tx => tx.sender = nodeId ∧ tx.recipient = nodeId

theorem countP_add_countP {α : Type} (p q : α → Bool) (l : List α) :
    l.countP p + l.countP q = l.countP (fun a => p a || q a) + l.countP (fun a => p a && q a) := by
  induction l with
  | nil => rfl
  | cons a l ih => cases hp : p a <;> cases hq : q a <;> simp [hp, hq] <;> omega

/-- Roles are counted, so who has both counts twice. -/
theorem score_eq (ledger : List Block) (nodeId : Address) :
    score ledger nodeId = participations ledger nodeId + selfDeals ledger nodeId := by
  have hroles := countP_add_countP (fun tx : Transaction => tx.sender == nodeId)
    (fun tx => tx.recipient == nodeId) (wonTransactions ledger)
  unfold score participations selfDeals
  simp only [List.count_eq_countP, List.countP_map, Bool.decide_or, Bool.decide_and]
  exact hroles

theorem score_eq_participations_iff (ledger : List Block) (nodeId : Address) :
    score ledger nodeId = participations ledger nodeId ↔
      ∀ tx ∈ wonTransactions ledger, ¬ (tx.sender = nodeId ∧ tx.recipient = nodeId) := by
  rw [score_eq, Nat.add_eq_left]
  unfold selfDeals
  simp [List.countP_eq_zero]

/-- What one settled auction adds. -/
theorem score_concat_auctionWon (ledger : List Block) {block : Block}
    {auction seller winner : Address} {winningBid : Nat}
    (hblock : block.transactions = [Transaction.auctionWon auction seller winner winningBid])
    (nodeId : Address) :
    score (ledger ++ [block]) nodeId =
      score ledger nodeId + (if winner = nodeId then 1 else 0) +
        if seller = nodeId then 1 else 0 := by
  rw [score_append, Nat.add_assoc]
  refine congrArg _ ?_
  simp [score, transactions, hblock, Transaction.auctionWon, Transaction.wonKey?,
    List.count_singleton]

/-- **Reputation counts roles**: on every ledger, the score of an address is
the number of `AuctionWon` transactions it takes part in, plus the number of
those in which it is winner and seller at once; so it is the number of
participations exactly when there are none of the latter. A settled auction
adds one for each role, and scores add up over concatenation. -/
theorem reputation_counts_roles (ledger ledger' : List Block) (nodeId : Address) :
    (reputationScores ledger nodeId).getD 0 =
        participations ledger nodeId + selfDeals ledger nodeId ∧
      ((reputationScores ledger nodeId).getD 0 = participations ledger nodeId ↔
        ∀ tx ∈ wonTransactions ledger, ¬ (tx.sender = nodeId ∧ tx.recipient = nodeId)) ∧
      (∀ (block : Block) (auction seller winner : Address) (winningBid : Nat),
        block.transactions = [Transaction.auctionWon auction seller winner winningBid] →
          (reputationScores (ledger ++ [block]) nodeId).getD 0 =
            (reputationScores ledger nodeId).getD 0 + (if winner = nodeId then 1 else 0) +
              if seller = nodeId then 1 else 0) ∧
      (reputationScores (ledger ++ ledger') nodeId).getD 0 =
        (reputationScores ledger nodeId).getD 0 + (reputationScores ledger' nodeId).getD 0 := by
  simp only [getD_reputationScores]
  exact ⟨score_eq ledger nodeId, score_eq_participations_iff ledger nodeId,
    fun _ _ _ _ _ hblock => score_concat_auctionWon ledger hblock nodeId,
    score_append ledger ledger' nodeId⟩

/-- **A sale to oneself counts twice**: the seller bids on its own auction,
which `place_bid` accepts, and the block that closing it appends raises its
reputation by two. -/
theorem self_deal_counts_twice :
    ∃ (offer sold : Auction) (block : Block),
      offer.placeBid offer.seller 125 1 = .ok sold ∧
      (sold.closeIfExpired 30000).2.declaredWin = some (offer.seller, 125) ∧
      block.transactions = [Transaction.auctionWon sold.key sold.seller offer.seller 125] ∧
      (reputationScores [block] offer.seller).getD 0 = 2 ∧
      participations [block] offer.seller = 1 := by
  let offer := Auction.new sampleCrates "watch" 100 (Address.ofU256 1) 0
  let sold := { offer with bids := [⟨Address.ofU256 1, offer.key, 125⟩] }
  refine ⟨offer, sold, winBlock sampleCrates (Effects.calm 30000) [] sold.key sold.seller
    (Address.ofU256 1) 125, ?_, ?_, rfl, ?_, ?_⟩
  · exact Auction.placeBid_eq_ok.mpr ⟨rfl, by decide, by decide, rfl⟩
  · decide +kernel
  · decide +kernel
  · decide +kernel

/-! ## Open gates -/

/-- `ledger` extends `base`, and each of its further blocks was appended where
the ledger so far gave the node the score. -/
def EarnedSince (config : Config) (nodeId : Address) (base ledger : List Block) : Prop :=
  base <+: ledger ∧
    ∀ i, base.length ≤ i → i < ledger.length →
      config.reputationThreshold ≤ score (ledger.take i) nodeId

theorem EarnedSince.settle {crates : Crates} {effects : Effects} {node : Node}
    {base ledger : List Block}
    (hpor : ConsensusMode.fromConfig node.config = .ProofOfReputation)
    (h : EarnedSince node.config node.nodeInfo.id base ledger) (auction : Auction) :
    EarnedSince node.config node.nodeInfo.id base (settle crates effects node ledger auction) := by
  obtain ⟨hpre, hearned⟩ := h
  rcases settle_cases crates effects node ledger auction with
    ⟨hsame, _⟩ | ⟨_, _, _, _, hrep, hpush⟩
  · rw [hsame]
    exact ⟨hpre, hearned⟩
  · rw [hpush]
    refine ⟨hpre.trans (List.prefix_append _ _), fun i hfrom hto => ?_⟩
    rw [List.length_append, List.length_singleton] at hto
    rw [List.take_append_of_le_length (by omega)]
    rcases Nat.lt_or_ge i ledger.length with hold | hnew
    · exact hearned i hfrom hold
    · -- The new block: the gate has read the whole ledger before it.
      rw [List.take_of_length_le hnew]
      exact (hasReputationToCommit_iff hpor ledger _).mp hrep

section Calls

variable {crates : Crates} {host host' : Host}

/-- The runs of a node from a host, by calls only. -/
abbrev CallsFrom (crates : Crates) (host : Host) : Host → Prop :=
  (nodeSystem crates (· = host)).ReachableUnder fun _ action => action.IsCall

/-- Calls leave the node and its configuration alone, and its ledger only
grows. -/
theorem CallsFrom.frame (h : CallsFrom crates host host') :
    host'.node.nodeInfo = host.node.nodeInfo ∧ host'.node.config = host.node.config ∧
      host.node.ledger <+: host'.node.ledger := by
  refine h.invariant (I := fun s => s.node.nodeInfo = host.node.nodeInfo ∧
    s.node.config = host.node.config ∧ host.node.ledger <+: s.node.ledger) ?_ ?_
  · intro s hs
    rw [hs]
    exact ⟨rfl, rfl, List.prefix_refl _⟩
  · intro s action s' ⟨hinfo, hconfig, hpre⟩ hcall hnext
    obtain ⟨effects, wins, hcommits⟩ := NodeAction.apply_commits hcall hnext
    exact ⟨hcommits.nodeInfo.trans hinfo, hcommits.config.trans hconfig,
      hpre.trans hcommits.prefix_ledger⟩

theorem CallsFrom.earnedSince (hpor : ConsensusMode.fromConfig host.node.config = .ProofOfReputation)
    (h : CallsFrom crates host host') :
    EarnedSince host.node.config host.node.nodeInfo.id host.node.ledger host'.node.ledger := by
  induction h with
  | init hs =>
    rw [show _ = host from hs]
    exact ⟨List.prefix_refl _, fun i hfrom hto => absurd hto (by omega)⟩
  | @step s s' action hreach hcall hnext ih =>
    obtain ⟨hinfo, hconfig, _⟩ := CallsFrom.frame hreach
    obtain ⟨effects, wins, hcommits⟩ := NodeAction.apply_commits hcall hnext
    rw [hcommits.ledger]
    rw [← hconfig] at hpor
    rw [← hinfo, ← hconfig] at ih ⊢
    exact settleAll_induction ih fun ledger auction _ hledger => hledger.settle hpor auction

end Calls

/-- **Who commits has earned it, and keeps it**: in proof-of-reputation mode,
from any ledger on, each block of a run of calls is appended where the blocks
before it give the node the score, and a gate that is open after some calls
is open after all later ones. -/
theorem commits_have_score (crates : Crates) {host host' : Host}
    (hpor : ConsensusMode.fromConfig host.node.config = .ProofOfReputation)
    (h : CallsFrom crates host host') :
    host.node.ledger <+: host'.node.ledger ∧
    (∀ i, host.node.ledger.length ≤ i → i < host'.node.ledger.length →
      host.node.config.reputationThreshold ≤
        score (host'.node.ledger.take i) host.node.nodeInfo.id) ∧
    (hasReputationToCommit host'.node.config host'.node.ledger host'.node.nodeInfo.id = true →
      ∀ later, CallsFrom crates host' later →
        hasReputationToCommit later.node.config later.node.ledger later.node.nodeInfo.id = true) := by
  obtain ⟨hpre, hearned⟩ := CallsFrom.earnedSince hpor h
  refine ⟨hpre, hearned, fun hrep later hlater => ?_⟩
  obtain ⟨hinfo, hconfig, hgrown⟩ := hlater.frame
  rw [hinfo, hconfig]
  exact hasReputationToCommit_mono hgrown hrep

/-- A proof-of-reputation configuration with this threshold. -/
def porConfig (threshold : Nat) : Config :=
  { Config.testConfig with consensusMode := "por", reputationThreshold := threshold }

/-- A node that needs a score of one and has sold the watch. -/
def watchSeller : Host :=
  { sampleHost with
    node := { sampleHost.node with config := porConfig 1, ledger := watchStored.node.ledger } }

/-- It learns of a second sale. -/
def watchSellerAgain : Host :=
  (watchSeller.storeAuction sampleCrates (Effects.calm 6)
    { soldWatch with key := Address.ofU256 8 }).2

theorem commits_have_score_watchSeller :
    (watchSeller.node.ledger <+: watchSellerAgain.node.ledger ∧
      (∀ i, watchSeller.node.ledger.length ≤ i → i < watchSellerAgain.node.ledger.length →
        watchSeller.node.config.reputationThreshold ≤
          score (watchSellerAgain.node.ledger.take i) watchSeller.node.nodeInfo.id) ∧
      (hasReputationToCommit watchSellerAgain.node.config watchSellerAgain.node.ledger
          watchSellerAgain.node.nodeInfo.id = true →
        ∀ later, CallsFrom sampleCrates watchSellerAgain later →
          hasReputationToCommit later.node.config later.node.ledger later.node.nodeInfo.id = true)) ∧
    watchSeller.node.ledger.length = 1 ∧ watchSellerAgain.node.ledger.length = 2 :=
  ⟨commits_have_score sampleCrates (by decide)
    (.step (a := .store { soldWatch with key := Address.ofU256 8 } (Effects.calm 6)) (.init rfl)
      trivial rfl), by decide +kernel, by decide +kernel⟩

/-! ## Shut gates -/

/-- The node's ledger does not give it the reputation to commit. -/
def Host.Gated (host : Host) : Prop :=
  hasReputationToCommit host.node.config host.node.ledger host.node.nodeInfo.id = false

section Gated

variable {crates : Crates} {effects : Effects} {host host' : Host}

theorem settle_of_gated (h : host.Gated) (auction : Auction) :
    settle crates effects host.node host.node.ledger auction = host.node.ledger := by
  rcases settle_cases crates effects host.node host.node.ledger auction with
    ⟨hsame, _⟩ | ⟨_, _, _, _, hrep, _⟩
  · exact hsame
  · rw [h] at hrep
    cases hrep

theorem settleAll_of_gated (h : host.Gated) (wins : List Auction) :
    settleAll crates effects host.node host.node.ledger wins = host.node.ledger := by
  refine settleAll_induction (P := fun ledger => ledger = host.node.ledger) rfl ?_
  rintro ledger auction _ rfl
  exact settle_of_gated h auction

/-- A call leaves a gated node gated, with the same ledger. -/
theorem Commits.of_gated {wins : List Auction} (hcommits : Commits crates effects host host' wins)
    (h : host.Gated) : host'.node.ledger = host.node.ledger ∧ host'.Gated := by
  have hledger : host'.node.ledger = host.node.ledger := by
    rw [hcommits.ledger, settleAll_of_gated h]
  refine ⟨hledger, ?_⟩
  unfold Host.Gated
  rw [hledger, hcommits.config, hcommits.nodeInfo]
  exact h

/-- **The gate stays shut**: no sequence of calls changes the ledger of a node
that lacks the reputation to commit. -/
theorem ledger_of_gated (h : host.Gated)
    (hreach : (nodeSystem crates (· = host)).ReachableUnder (fun _ action => action.IsCall) host') :
    host'.node.ledger = host.node.ledger ∧ host'.Gated := by
  refine hreach.invariant (I := fun s => s.node.ledger = host.node.ledger ∧ s.Gated) ?_ ?_
  · rintro s rfl
    exact ⟨rfl, h⟩
  · rintro s action s' ⟨hledger, hgated⟩ hcall hnext
    obtain ⟨effects, wins, hcommits⟩ := NodeAction.apply_commits hcall hnext
    obtain ⟨hsame, hgated'⟩ := hcommits.of_gated hgated
    exact ⟨hsame.trans hledger, hgated'⟩

end Gated

/-! ## From an empty ledger -/

theorem hasReputationToCommit_nil {config : Config}
    (h : ConsensusMode.fromConfig config = .ProofOfReputation) (nodeId : Address) :
    hasReputationToCommit config [] nodeId = decide (config.reputationThreshold = 0) := by
  unfold hasReputationToCommit
  rw [h]
  simp [reputationScores]

/-- Storing an auction that declares a win is enough to commit a block where
there is none yet and the node may commit. -/
theorem settle_nil_ne_nil {crates : Crates} {effects : Effects} {node : Node} {auction : Auction}
    {win : Address × Nat} (hwin : auction.declaredWin = some win)
    (hrep : hasReputationToCommit node.config [] node.nodeInfo.id = true) :
    settle crates effects node [] auction ≠ [] := by
  rcases settle_cases crates effects node [] auction with ⟨_, hwhy⟩ | ⟨_, _, _, _, _, hpush⟩
  · rcases hwhy win hwin with hrec | hnone
    · simp [recordsWin] at hrec
    · rw [hrep] at hnone
      cases hnone
  · rw [hpush]
    simp

/-- **Proof of reputation from an empty ledger**: some finite sequence of
`store_auction` and `close_expired_auctions` calls leaves a block in the
ledger exactly when the threshold is zero. -/
theorem por_ledger_reachable_iff (crates : Crates) {host : Host}
    (hpor : ConsensusMode.fromConfig host.node.config = .ProofOfReputation)
    (hempty : host.node.ledger = []) :
    (∃ host', (nodeSystem crates (· = host)).ReachableUnder (fun _ action => action.IsCall) host' ∧
        host'.node.ledger ≠ []) ↔
      host.node.config.reputationThreshold = 0 := by
  have hgate := hasReputationToCommit_nil hpor host.node.nodeInfo.id
  constructor
  · rintro ⟨host', hreach, hsome⟩
    by_contra hthreshold
    have hgated : host.Gated := by
      unfold Host.Gated
      rw [hempty, hgate]
      exact decide_eq_false hthreshold
    exact hsome ((ledger_of_gated hgated hreach).1.trans hempty)
  · intro hthreshold
    have hrep : hasReputationToCommit host.node.config [] host.node.nodeInfo.id = true := by
      rw [hgate]
      exact decide_eq_true hthreshold
    have hwin : soldWatch.declaredWin = some (Address.ofU256 2, 125) := rfl
    refine ⟨_, .step (a := .store soldWatch (Effects.calm 0)) (.init rfl) trivial rfl, ?_⟩
    obtain ⟨_, ⟨settled, _, hcommits, hall⟩, _⟩ :=
      host.storeAuction_commits crates (Effects.calm 0) soldWatch
    rw [hcommits.ledger, hall rfl, hempty]
    exact settle_nil_ne_nil hwin hrep

theorem por_ledger_reachable_iff_one :
    (∃ host', (nodeSystem sampleCrates
        (· = Host.fresh (Address.ofU256 1) "127.0.0.1" 8000 (porConfig 1))).ReachableUnder
          (fun _ action => action.IsCall) host' ∧ host'.node.ledger ≠ []) ↔
      (Host.fresh (Address.ofU256 1) "127.0.0.1" 8000 (porConfig 1)).node.config.reputationThreshold
        = 0 :=
  por_ledger_reachable_iff sampleCrates (by decide) rfl

/-- With a threshold of one, a first start leads to no block. -/
theorem por_dead_end :
    ¬ ∀ (crates : Crates) (nodeId : Address) (threshold : Nat),
      ∃ host', (nodeSystem crates
          (· = Host.fresh nodeId "127.0.0.1" 8000 (porConfig threshold))).ReachableUnder
            (fun _ action => action.IsCall) host' ∧ host'.node.ledger ≠ [] := by
  intro hclaim
  obtain ⟨host', hreach, hsome⟩ := hclaim sampleCrates (Address.ofU256 1) 1
  have hgated : (Host.fresh (Address.ofU256 1) "127.0.0.1" 8000 (porConfig 1)).Gated := by
    unfold Host.Gated
    exact (hasReputationToCommit_nil (by decide) _).trans (by decide)
  exact hsome (ledger_of_gated hgated hreach).1

end KademliaAuction

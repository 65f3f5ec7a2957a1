/-
KademliaAuction.Consensus — proof of work and proof of reputation
(`src/consensus.rs`).

The mode decides who may commit a block. In proof-of-work mode every node
may; in proof-of-reputation mode a node needs a score, which it earns by
taking part in settled auctions. The score table is a function from
addresses to what the `HashMap` holds for them.
-/
import KademliaAuction.Blockchain.Block
import KademliaAuction.Utils.Config
import Mathlib.Logic.Function.Basic

namespace KademliaAuction

open Blockchain

/-- `enum ConsensusMode`. -/
inductive ConsensusMode where
  | ProofOfWork
  | ProofOfReputation
  deriving DecidableEq, Repr

/-- `ConsensusMode::from_config`: any other text means proof of work. -/
def ConsensusMode.fromConfig (config : Config) : ConsensusMode :=
  if config.consensusMode = "por" ∨ config.consensusMode = "proof-of-reputation" then
    .ProofOfReputation
  else .ProofOfWork

/-- `HashMap<Address, u64>`. -/
abbrev Scores := Address → Option Nat

/-- `*scores.entry(address).or_insert(0) += 1`. -/
def Scores.bump (scores : Scores) (address : Address) : Scores :=
  Function.update scores address (some ((scores address).getD 0 + 1))

/-- The body of the inner loop of `reputation_scores`. -/
def Scores.addTransaction (scores : Scores) (tx : Transaction) : Scores :=
  match tx.kind with
  | .auctionWon _ => (scores.bump tx.sender).bump tx.recipient
  | .transfer => scores

/-- `reputation_scores`. -/
def reputationScores (ledger : List Block) : Scores :=
  ledger.foldl (fun scores block => block.transactions.foldl Scores.addTransaction scores)
    fun _ => none

/-- `has_reputation_to_commit`. -/
def hasReputationToCommit (config : Config) (ledger : List Block) (nodeId : Address) : Bool :=
  match ConsensusMode.fromConfig config with
  | .ProofOfWork => true
  | .ProofOfReputation =>
      decide (config.reputationThreshold ≤ (reputationScores ledger nodeId).getD 0)

/-- In proof-of-work mode every node may commit. -/
theorem hasReputationToCommit_of_pow {config : Config}
    (h : ConsensusMode.fromConfig config = .ProofOfWork) (ledger : List Block) (nodeId : Address) :
    hasReputationToCommit config ledger nodeId = true := by
  unfold hasReputationToCommit
  rw [h]

end KademliaAuction

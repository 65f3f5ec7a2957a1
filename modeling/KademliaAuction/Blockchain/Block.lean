/-
KademliaAuction.Blockchain.Block — transactions and hash-addressed blocks
(`src/blockchain/transaction.rs`, `src/blockchain/block.rs`).

Two functions the blocks rest on are not in the repository: SHA-256 of the
`sha2` crate and the `serde_json` text of a block. They are the fields of
`Crates`, and nothing is assumed of them here. `Utc::now()` is a parameter
of every function that reads the clock.

Amounts, indices and nonces are `u64` in the source and timestamps `i64`;
they are `Nat` and `Int` here. A block's index is the length of a `Vec`,
which never exceeds `u64`.
-/
import KademliaAuction.Blockchain.Address

namespace KademliaAuction

namespace Blockchain

/-- `TransactionKind`. -/
inductive TransactionKind where
  | transfer
  | auctionWon (auction : Address)
  deriving DecidableEq

/-- `struct Transaction`. -/
structure Transaction where
  sender : Address
  recipient : Address
  amount : Nat
  kind : TransactionKind
  deriving DecidableEq

/-- `Transaction::auction_won`: the winner pays the seller. -/
def Transaction.auctionWon (auction seller winner : Address) (winningBid : Nat) : Transaction where
  sender := winner
  recipient := seller
  amount := winningBid
  kind := .auctionWon auction

/-- The auction key of an `AuctionWon` transaction. -/
def Transaction.wonKey? (tx : Transaction) : Option Address :=
  match tx.kind with
  | .auctionWon auction => some auction
  | .transfer => none

/-- `struct Block`. -/
structure Block where
  index : Nat
  timestamp : Int
  nonce : Nat
  previousHash : U256
  hash : U256
  transactions : List Transaction
  deriving DecidableEq

end Blockchain

open Blockchain

/-- What the ledger takes from other crates: `Sha256::digest` of a byte
string as a number, and `serde_json::to_string` of a block. -/
structure Crates where
  sha256 : List UInt8 → U256
  blockToString : Block → String

/-- `hash_data` on bytes. -/
def hashData (crates : Crates) (input : List UInt8) : U256 := crates.sha256 input

/-- `hash_data` on a string: its UTF-8 bytes. -/
def hashStr (crates : Crates) (input : String) : U256 := hashData crates input.toUTF8.toList

namespace Blockchain.Block

/-- `calculate_hash`: the digest of the block's text with the hash field
zeroed. -/
def calculateHash (crates : Crates) (block : Block) : U256 :=
  hashStr crates (crates.blockToString { block with hash := 0 })

/-- `Block::new`, at clock reading `timestamp`. -/
def new (crates : Crates) (index nonce : Nat) (previousHash : U256)
    (transactions : List Transaction) (timestamp : Int) : Block :=
  let block : Block := { index, timestamp, nonce, previousHash, hash := 0, transactions }
  { block with hash := block.calculateHash crates }

/-- The hash field is left out of what is hashed. -/
theorem calculateHash_congr (crates : Crates) (block : Block) (h : U256) :
    calculateHash crates { block with hash := h } = calculateHash crates block := rfl

variable (crates : Crates) (index nonce : Nat) (previousHash : U256)
  (transactions : List Transaction) (timestamp : Int)

@[simp] theorem new_index :
    (new crates index nonce previousHash transactions timestamp).index = index := rfl

@[simp] theorem new_previousHash :
    (new crates index nonce previousHash transactions timestamp).previousHash = previousHash := rfl

@[simp] theorem new_transactions :
    (new crates index nonce previousHash transactions timestamp).transactions = transactions := rfl

@[simp] theorem new_timestamp :
    (new crates index nonce previousHash transactions timestamp).timestamp = timestamp := rfl

/-- A new block carries its own hash. -/
theorem new_hash :
    (new crates index nonce previousHash transactions timestamp).hash =
      (new crates index nonce previousHash transactions timestamp).calculateHash crates := by
  unfold new
  exact (calculateHash_congr crates _ _).symm

end Blockchain.Block

end KademliaAuction
